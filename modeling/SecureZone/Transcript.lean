/-!
# Shared text buffers

A text buffer is written and read through handles. A cloned handle shares the buffer of its source,
and a fresh one has a buffer of its own. Taking the text empties the buffer for every handle on it.
-/

namespace SecureZone

/-- The text of every buffer, and for every handle the index of its buffer. -/
structure Transcript where
  texts : List String
  buffers : List Nat
  deriving DecidableEq, Repr

namespace Transcript

/-- One handle on one empty buffer. -/
def initial : Transcript := ⟨[""], [0]⟩

def bufferOf (t : Transcript) (handle : Nat) : Nat := t.buffers.getD handle 0

def view (t : Transcript) (handle : Nat) : String := t.texts.getD (t.bufferOf handle) ""

def setView (t : Transcript) (handle : Nat) (text : String) : Transcript :=
  { t with texts := t.texts.set (t.bufferOf handle) text }

private def dropReturn : List Char → List Char
  | '\r' :: cs => cs
  | cs => cs

/-- Break a text at its line feeds, given the current line in reverse. A return in front of a line
feed belongs to the line end, and a line that is neither ended nor begun does not count. -/
def breakLines : List Char → List Char → List String
  | [], [] => []
  | [], line => [String.ofList line.reverse]
  | '\n' :: cs, line => String.ofList (dropReturn line).reverse :: breakLines cs []
  | c :: cs, line => breakLines cs (c :: line)

def lines (text : String) : List String := breakLines text.toList []

theorem breakLines_cons {c : Char} (h : c ≠ '\n') (cs line : List Char) :
    breakLines (c :: cs) line = breakLines cs (c :: line) := by
  rw [breakLines]
  exact h

/-- A line that does not end in a return is kept as it is. -/
theorem breakLines_lineFeed {line : List Char} (h : ∀ c ∈ line.head?, c ≠ '\r') (cs : List Char) :
    breakLines ('\n' :: cs) line = String.ofList line.reverse :: breakLines cs [] := by
  cases line with
  | nil => simp [breakLines, dropReturn]
  | cons c line =>
      have hc : c ≠ '\r' := h c rfl
      simp [breakLines, dropReturn, hc]

inductive Op where
  | fresh
  | clone (handle : Nat)
  | write (handle : Nat) (text : String)
  | writeLine (handle : Nat) (text : String)
  | take (handle : Nat)
  | read (handle : Nat)
  | lines (handle : Nat)
  | isEmpty (handle : Nat)
  deriving DecidableEq, Repr

inductive Reply where
  | done
  | handle (index : Nat)
  | text (text : String)
  | lines (lines : List String)
  | flag (b : Bool)
  deriving DecidableEq, Repr

def step (t : Transcript) : Op → Transcript × Reply
  | .fresh =>
    (⟨t.texts ++ [""], t.buffers ++ [t.texts.length]⟩, .handle t.buffers.length)
  | .clone h => ({ t with buffers := t.buffers ++ [t.bufferOf h] }, .handle t.buffers.length)
  | .write h text => (t.setView h (t.view h ++ text), .done)
  | .writeLine h text => (t.setView h (t.view h ++ text ++ "\n"), .done)
  | .take h => (t.setView h "", .text (t.view h))
  | .read h => (t, .text (t.view h))
  | .lines h => (t, .lines (lines (t.view h)))
  | .isEmpty h => (t, .flag (t.view h).isEmpty)

end Transcript

end SecureZone
