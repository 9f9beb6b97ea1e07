/-!
What an ignore pattern can be made of, and which paths it fits. A pattern is a row of pieces; each piece
takes some characters from the front of a path, often in more than one way, and a pattern fits a path when
its pieces can be taken one after another. What stands behind the last piece does not matter.
-/

namespace ClassDiagram.Ignore

structure CharClass where
  negated : Bool := false
  ranges : List (Char × Char) := []
  deriving DecidableEq, Repr

namespace CharClass

def has (k : CharClass) (c : Char) : Bool :=
  (k.ranges.any fun r => r.1 ≤ c && c ≤ r.2) != k.negated

def only (c : Char) : CharClass := { ranges := [(c, c)] }

def allBut (c : Char) : CharClass := { negated := true, ranges := [(c, c)] }

def inName : CharClass := allBut '/'

def inLine : CharClass := allBut '\n'

def any : CharClass := { negated := true }

end CharClass

inductive Piece where
  | one (k : CharClass)
  | run (k : CharClass)
  | ancestors
  | between
  | slashOrEnd
  | optionalSlashEnd
  deriving DecidableEq, Repr

def atEnd (cs : List Char) : Bool := cs = [] || cs = ['\n']

def afterOne (k : CharClass) : List Char → List (List Char)
  | [] => []
  | c :: cs => if k.has c then [cs] else []

def afterRun (k : CharClass) : List Char → List (List Char)
  | [] => [[]]
  | c :: cs => if k.has c then (c :: cs) :: afterRun k cs else [c :: cs]

def afterSome (k : CharClass) (cs : List Char) : List (List Char) :=
  (afterOne k cs).flatMap (afterRun k)

def Piece.after : Piece → List Char → List (List Char)
  | .one k, cs => afterOne k cs
  | .run k, cs => afterRun k cs
  | .ancestors, cs => cs :: (afterSome .inLine cs).flatMap (afterOne (.only '/'))
  | .between, cs => cs :: (afterOne (.only '/') cs).flatMap (afterSome .inLine)
  | .slashOrEnd, cs => afterOne (.only '/') cs ++ if atEnd cs then [cs] else []
  | .optionalSlashEnd, cs => (cs :: afterOne (.only '/') cs).filter atEnd

def fits : List Piece → List Char → Bool
  | [], _ => true
  | p :: ps, cs => (p.after cs).any (fits ps)

theorem mem_afterRun_self (k : CharClass) (cs : List Char) : cs ∈ afterRun k cs := by
  cases cs with
  | nil => simp [afterRun]
  | cons c cs => rw [afterRun]; split <;> simp

def wholeName : List Piece := [.one .inName, .run .inName]

-- The ranges that the text between brackets stands for. A hyphen between two characters makes a range of
-- them, and elsewhere it is a character like the others.
def rangesOf : List Char → List (Char × Char)
  | [] => []
  | a :: '-' :: b :: cs => (a, b) :: rangesOf cs
  | a :: cs => (a, a) :: rangesOf cs

def upToBracket : List Char → List Char × List Char
  | ']' :: cs => (']' :: cs.takeWhile (· ≠ ']'), cs.dropWhile (· ≠ ']'))
  | cs => (cs.takeWhile (· ≠ ']'), cs.dropWhile (· ≠ ']'))

def isNegation : List Char → Bool
  | '!' :: _ | '^' :: _ => true
  | _ => false

def bracketed? (cs : List Char) : Option (CharClass × List Char) :=
  match upToBracket (if isNegation cs then cs.drop 1 else cs) with
  | (_, []) => none
  | (body, _ :: rest) => some ({ negated := isNegation cs, ranges := rangesOf body }, rest)

theorem upToBracket_length (cs : List Char) : (upToBracket cs).2.length ≤ cs.length := by
  have drop_le (p : Char → Bool) (l : List Char) : (l.dropWhile p).length ≤ l.length :=
    (List.dropWhile_suffix p).length_le
  unfold upToBracket
  split
  · exact Nat.le_succ_of_le (drop_le _ _)
  · exact drop_le _ _

theorem bracketed?_length {cs rest : List Char} {k : CharClass}
    (h : bracketed? cs = some (k, rest)) : rest.length < cs.length := by
  unfold bracketed? at h
  have le := upToBracket_length (if isNegation cs then cs.drop 1 else cs)
  split at h
  · simp at h
  · rename_i body c rest' eq
    rw [eq] at le
    obtain ⟨-, rfl⟩ : _ ∧ rest' = rest := by simpa using h
    have : (if isNegation cs then cs.drop 1 else cs).length ≤ cs.length := by
      split <;> simp
    simp only [List.length_cons] at le
    omega

inductive GlobFault where
  | unfinishedEscape
  | reversedRange (low high : Char)
  deriving DecidableEq, Repr

def checkRanges (k : CharClass) : Except GlobFault CharClass :=
  match k.ranges.find? fun r => r.2 < r.1 with
  | some (low, high) => .error (.reversedRange low high)
  | none => .ok k

-- The pieces of a pattern for one name: `*` is a run, `?` one character, brackets hold a class, and a
-- backslash takes the next character as it is.
def glob (cs : List Char) : Except GlobFault (List Piece) :=
  match cs with
  | [] => .ok []
  | '\\' :: [] => .error .unfinishedEscape
  | '\\' :: c :: rest => do pure (.one (.only c) :: (← glob rest))
  | '*' :: rest => do pure (.run .inName :: (← glob rest))
  | '?' :: rest => do pure (.one .inName :: (← glob rest))
  | '[' :: rest =>
      match h : bracketed? rest with
      | some (k, after) => do
          have := bracketed?_length h
          let k ← checkRanges k
          pure (.one k :: (← glob after))
      | none => do pure (.one (.only '[') :: (← glob rest))
  | c :: rest => do pure (.one (.only c) :: (← glob rest))
termination_by cs.length

end ClassDiagram.Ignore
