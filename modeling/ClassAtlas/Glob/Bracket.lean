import ClassAtlas.Glob.Basic

/-!
Sets in brackets. A leading exclamation mark negates the set. A hyphen makes a range of the
code points around it, unless it comes first or last or directly follows a range; a range
whose start is above its end is taken out. An empty set admits nothing, and a negated empty
one admits everything.
-/

namespace ClassAtlas.Glob

def hyphen : CodePoint := '-'.toNat
def exclamation : CodePoint := '!'.toNat
def closing : CodePoint := ']'.toNat

-- How far it is to the first hyphen that can make a range, at `start` or later.
def headLength (start : Nat) (body : Text) : Nat :=
  start + ((body.drop start).takeWhile (· ≠ hyphen)).length

-- The body cut at the hyphens that make ranges.
def chunks (start : Nat) (body : Text) : List Text :=
  if headLength start body < body.length then
    body.take (headLength start body) :: chunks 2 (body.drop (headLength start body + 1))
  else [body]
  termination_by body.length
  decreasing_by simp only [List.length_drop]; omega

-- A hyphen at the very end is an ordinary member.
def closeLast : List Text → List Text
  | [chunk, []] => [chunk ++ [hyphen]]
  | chunk :: later => chunk :: closeLast later
  | [] => []

-- An empty range disappears together with both its ends.
def dropEmptyRange (chunk : Text) : List Text → List Text
  | next :: later =>
    match chunk.getLast?, next.head? with
    | some low, some high =>
      if high < low then (chunk.dropLast ++ next.tail) :: later else chunk :: next :: later
    | _, _ => chunk :: next :: later
  | [] => [chunk]

def single (c : CodePoint) : CodePoint × CodePoint := (c, c)

def members : List Text → Ranges
  | [] => []
  | [chunk] => chunk.map single
  | chunk :: next :: later =>
    chunk.map single ++ (chunk.getLast?.getD 0, next.head?.getD 0) :: members (next :: later)

def setOf (body : Text) : Element :=
  let start := if body.head? = some exclamation then 2 else 1
  match (closeLast (chunks start body)).foldr dropEmptyRange [] with
  | [] => .set false []
  | chunk :: later =>
    if chunk.head? = some exclamation then
      -- a mark that is left alone before a hyphen leaves the hyphen as a member
      if chunk.tail = [] ∧ later ≠ [] then .set true (single hyphen :: members later)
      else .set true (members (chunk.tail :: later))
    else .set false (members (chunk :: later))

-- A mark in front and a closing bracket directly after it belong to the body.
def opening (t : Text) : Text :=
  let mark := if t.head? = some exclamation then [exclamation] else []
  if (t.drop mark.length).head? = some closing then mark ++ [closing] else mark

-- The body of a set and what follows its closing bracket, or nothing if it is never closed.
def bracket? (t : Text) : Option (Text × Text) :=
  let inner := t.drop (opening t).length
  match inner.dropWhile (· ≠ closing) with
  | [] => none
  | _ :: after => some (opening t ++ inner.takeWhile (· ≠ closing), after)

theorem bracket_shortens {t body after : Text} (h : bracket? t = some (body, after)) :
    after.length < t.length := by
  unfold bracket? at h
  dsimp only at h
  split at h
  · cases h
  · rename_i c rest found
    cases h
    have dropped := (List.dropWhile_sublist (l := t.drop (opening t).length)
      (fun d => decide (d ≠ closing))).length_le
    rw [found, List.length_drop] at dropped
    simp only [List.length_cons] at dropped
    omega

def parse : Text → Glob
  | [] => []
  | c :: t =>
    if c = '*'.toNat then .anyRun :: parse t
    else if c = '?'.toNat then .anyOne :: parse t
    else if c = '['.toNat then
      match _closed : bracket? t with
      | some (body, after) => setOf body :: parse after
      | none => .literal c :: parse t
    else .literal c :: parse t
  termination_by t => t.length
  decreasing_by
    · exact Nat.lt_succ_self _
    · exact Nat.lt_succ_self _
    · exact Nat.lt_succ_of_lt (bracket_shortens _closed)
    · exact Nat.lt_succ_self _
    · exact Nat.lt_succ_self _

end ClassAtlas.Glob
