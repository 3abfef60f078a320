import ClassAtlas.Text

/-!
Control sequences of terminals: an escape and an opening bracket, then parameters, intermediate
characters and one final character. A sequence that is only begun is ordinary text, and so is
what comes together where one was taken out.
-/

namespace ClassAtlas.Text

def escape : CodePoint := 0x1B
def openingBracket : CodePoint := '['.toNat

def isParameter (c : CodePoint) : Bool := 0x30 ≤ c && c ≤ 0x3F
def isIntermediate (c : CodePoint) : Bool := 0x20 ≤ c && c ≤ 0x2F
def isFinal (c : CodePoint) : Bool := 0x40 ≤ c && c ≤ 0x7E

-- What follows the control sequence that the text starts with, if it starts with one.
def afterSequence? : Text → Option Text
  | first :: second :: body =>
    if first = escape ∧ second = openingBracket then
      match (body.dropWhile isParameter).dropWhile isIntermediate with
      | c :: rest => if isFinal c then some rest else none
      | [] => none
    else none
  | _ => none

theorem after_sequence_shortens {t rest : Text} (h : afterSequence? t = some rest) :
    rest.length < t.length := by
  unfold afterSequence? at h
  split at h
  · rename_i first second body
    split at h
    · split at h
      · rename_i c later found
        split at h
        · cases h
          have outer := (List.dropWhile_sublist isParameter (l := body)).length_le
          have inner := (List.dropWhile_sublist isIntermediate
            (l := body.dropWhile isParameter)).length_le
          rw [found] at inner
          simp only [List.length_cons] at inner ⊢
          omega
        · cases h
      · cases h
    · cases h
  · cases h

-- The text so far is held in reverse.
def plainFrom (sofar : Text) : Text → Text
  | [] => sofar.reverse
  | c :: t =>
    match _found : afterSequence? (c :: t) with
    | some rest => plainFrom sofar rest
    | none => plainFrom (c :: sofar) t
  termination_by t => t.length
  decreasing_by
    · exact after_sequence_shortens _found
    · exact Nat.lt_succ_self _

-- The text without its control sequences.
def plain (t : Text) : Text := plainFrom [] t

end ClassAtlas.Text
