import ClassAtlas.Proofs.ClassFile.Signature
import ClassAtlas.Proofs.Text.Join

/-!
The search for class names against the grammar. The search knows neither brackets nor depth,
so each tree is shown to be read for its own names and to leave the search at its end as at a
start, whatever follows.
-/

namespace ClassAtlas.Descriptor
open Signature

-- The names found in a text, with the search back at a start behind it.
def Reads (t : Text) (names : List Text) : Prop :=
  ∀ rest, classNames (t ++ rest) = names ++ classNames rest

section Composition

variable {c lead stop : CodePoint} {t u body : Text} {names more : List Text}

theorem Reads.class_names (h : Reads t names) : classNames t = names := by
  have whole := h []
  simpa [classNames] using whole

theorem reads_nothing : Reads [] [] := fun _ => rfl

theorem Reads.append (h : Reads t names) (later : Reads u more) :
    Reads (t ++ u) (names ++ more) := by
  intro rest
  rw [List.append_assoc, h, later, List.append_assoc]

theorem reads_flat_map {α : Type} {text : α → Text} {found : α → List Text} (items : List α)
    (each : ∀ a ∈ items, Reads (text a) (found a)) :
    Reads (items.flatMap text) (items.flatMap found) := by
  induction items with
  | nil => exact reads_nothing
  | cons a items ih =>
    have first := each a List.mem_cons_self
    have others := ih fun b member => each b (List.mem_cons_of_mem a member)
    simpa using first.append others

theorem reads_mark (plain : opensName c = false) : Reads [c] [] := by
  intro rest
  simp [classNames, plain]

theorem Reads.behind (plain : opensName c = false) (h : Reads t names) : Reads (c :: t) names :=
  (reads_mark plain).append h

theorem stopped (free : ∀ c ∈ body, closesName c = false) (closes : closesName stop = true)
    (rest : Text) :
    bodyOf (body ++ stop :: rest) = body ∧
      afterBody (body ++ stop :: rest) = stop :: rest := by
  have inside : ∀ c ∈ body, (!closesName c) = true := by simpa using free
  constructor
  · rw [bodyOf, List.takeWhile_append_of_pos inside]
    simp [closes]
  · rw [afterBody, List.dropWhile_append_of_pos inside]
    simp [closes]

-- Everything the search does with a name that has begun.
theorem reads_run (opens : opensName lead = true) (free : ∀ c ∈ body, closesName c = false)
    (closes : closesName stop = true) :
    Reads (lead :: body ++ [stop]) (if namesClass lead stop then [body] else []) := by
  intro rest
  obtain ⟨here, behind⟩ := stopped free closes rest
  have shape : lead :: body ++ [stop] ++ rest = lead :: (body ++ stop :: rest) := by simp
  rw [shape, classNames, if_pos opens]
  split
  · rename_i found
    rw [behind] at found
    cases found
  · rename_i next after found
    rw [behind] at found
    cases found
    rw [here]
    split <;> rfl

end Composition

section Names

theorem closer_reserved {c : CodePoint} (closes : closesName c = true) : c ∈ reserved := by
  simp only [closesName, Bool.or_eq_true, beq_iff_eq] at closes
  rcases closes with (rfl | rfl) | rfl <;> decide

theorem identifier_open (name : Identifier) : ∀ c ∈ name.text, closesName c = false := by
  intro c member
  have free := name.free c member
  rw [← Bool.not_eq_true]
  exact fun closes => free (closer_reserved closes)

theorem qualified_open (name : QualifiedName) : ∀ c ∈ name.text, closesName c = false := by
  intro c member
  rcases Text.mem_join member with slash | ⟨part, among, inside⟩
  · rw [List.mem_singleton] at slash
    subst slash
    decide
  · rw [List.mem_map] at among
    obtain ⟨id, _, rfl⟩ := among
    exact identifier_open id c inside

theorem reads_class (name : QualifiedName) {stop : CodePoint}
    (named : namesClass 'L'.toNat stop = true) :
    Reads ('L'.toNat :: name.text ++ [stop]) [name.text] := by
  have closes : closesName stop = true := by
    rw [namesClass, beq_self_eq_true, Bool.true_and] at named
    rw [closesName, named, Bool.true_or]
  have run := reads_run (show opensName 'L'.toNat = true by decide) (qualified_open name) closes
  rw [if_pos named] at run
  exact run

theorem reads_variable (name : Identifier) : Reads ('T'.toNat :: name.text ++ [';'.toNat]) [] :=
  reads_run (by decide) (identifier_open name) (by decide)

-- A formal name holds letters that begin names; the first of them runs to the colon.
theorem reads_formal_name {name : Text} (free : ∀ c ∈ name, closesName c = false) :
    Reads (name ++ [':'.toNat]) [] := by
  induction name with
  | nil => exact reads_mark (by decide)
  | cons c name ih =>
    have later : ∀ d ∈ name, closesName d = false :=
      fun d member => free d (List.mem_cons_of_mem c member)
    cases opens : opensName c with
    | false => exact (ih later).behind opens
    | true =>
      have run := reads_run opens later (show closesName ':'.toNat = true by decide)
      have unnamed : namesClass c ':'.toNat = false := by simp [namesClass]
      rw [unnamed] at run
      exact run

theorem reads_base (b : BaseType) : Reads [b.letter.toNat] [] := by
  apply reads_mark
  cases b <;> decide

end Names

section Suffixes

-- What may follow type arguments up to the end of a class type. Suffixes without arguments
-- are not told apart: they make one run, so the end is read behind a run already begun too.
structure Ends (t : Text) (names : List Text) : Prop where
  fresh : Reads t names
  begun : ∀ body : Text, (∀ c ∈ body, closesName c = false) → Reads ('.'.toNat :: body ++ t) names

variable {t a : Text} {names found : List Text}

theorem open_append (name : Identifier) {body : Text} (free : ∀ c ∈ body, closesName c = false) :
    ∀ c ∈ body ++ '.'.toNat :: name.text, closesName c = false := by
  intro c member
  rw [List.mem_append, List.mem_cons] at member
  rcases member with here | rfl | inside
  · exact free c here
  · decide
  · exact identifier_open name c inside

theorem ends_last : Ends [';'.toNat] [] :=
  ⟨reads_mark (by decide), fun _ free => reads_run (by decide) free (by decide)⟩

theorem Ends.plain (h : Ends t names) (name : Identifier) :
    Ends ('.'.toNat :: name.text ++ t) names := by
  refine ⟨h.begun name.text (identifier_open name), fun body free => ?_⟩
  have longer := h.begun _ (open_append name free)
  simpa using longer

theorem Ends.generic (h : Ends t names) (name : Identifier) (inner : Reads a found) :
    Ends ('.'.toNat :: name.text ++ ['<'.toNat] ++ a ++ '>'.toNat :: t) (found ++ names) := by
  have run : ∀ body : Text, (∀ c ∈ body, closesName c = false) →
      Reads ('.'.toNat :: body ++ ['<'.toNat] ++ (a ++ '>'.toNat :: t)) (found ++ names) := by
    intro body free
    have opened : Reads ('.'.toNat :: body ++ ['<'.toNat]) [] :=
      reads_run (by decide) free (by decide)
    exact opened.append (inner.append (h.fresh.behind (by decide)))
  constructor
  · have fresh := run name.text (identifier_open name)
    simpa using fresh
  · intro body free
    have longer := run _ (open_append name free)
    simpa using longer

end Suffixes

-- One case for each way to build a tree.
mutual
theorem java_type_reads : (t : JavaType) → Reads t.text t.names
  | .base b => reads_base b
  | .reference r => reference_reads r

theorem reference_reads : (r : Reference) → Reads r.text r.names
  | .ofClass c => class_type_reads c
  | .ofVariable name => reads_variable name
  | .ofArray element => (java_type_reads element).behind (by decide)

theorem class_type_reads : (c : ClassType) → Reads c.text c.names
  | .plain name => reads_class name (by decide)
  | .generic name first others suffixes => by
    have inner := (argument_reads first).append (arguments_read others)
    have last := (suffixes_end suffixes).fresh.behind (show opensName '>'.toNat = false by decide)
    exact ((reads_class name (by decide)).append inner).append last

theorem argument_reads : (a : Argument) → Reads a.text a.names
  | .any => reads_mark (by decide)
  | .exactly r => reference_reads r
  | .upTo r => (reference_reads r).behind (by decide)
  | .downTo r => (reference_reads r).behind (by decide)

theorem arguments_read : (l : List Argument) → Reads (argumentsText l) (argumentsNames l)
  | [] => reads_nothing
  | a :: others => (argument_reads a).append (arguments_read others)

theorem suffixes_end : (l : List Suffix) →
    Ends (suffixesText l ++ [';'.toNat]) (suffixesNames l)
  | [] => ends_last
  | .plain name :: later => by
    have whole := (suffixes_end later).plain name
    simpa [suffixesText, suffixesNames, Suffix.text, Suffix.names] using whole
  | .generic name first others :: later => by
    have inner := (argument_reads first).append (arguments_read others)
    have whole := (suffixes_end later).generic name inner
    simpa [suffixesText, suffixesNames, Suffix.text, Suffix.names] using whole
end

theorem field_type_reads (t : FieldType) : Reads t.text t.names := by
  induction t with
  | base b => exact reads_base b
  | object name => exact reads_class name (by decide)
  | array element ih => exact ih.behind (by decide)

theorem formal_reads (f : Formal) : Reads f.text f.names := by
  have name := reads_formal_name (identifier_open f.name)
  have first : Reads (f.classBound.elim [] Reference.text)
      (f.classBound.elim [] Reference.names) := by
    cases f.classBound with
    | none => exact reads_nothing
    | some r => exact reference_reads r
  have bounds : Reads (f.interfaceBounds.flatMap boundText)
      (f.interfaceBounds.flatMap Reference.names) :=
    reads_flat_map f.interfaceBounds fun r _ => (reference_reads r).behind (by decide)
  exact (name.append first).append bounds

theorem formals_read (formals : List Formal) :
    Reads (formalsText formals) (formals.flatMap Formal.names) := by
  cases formals with
  | nil => exact reads_nothing
  | cons f later =>
    have inner := reads_flat_map (f :: later) fun g _ => formal_reads g
    have closing := reads_mark (show opensName '>'.toNat = false by decide)
    have whole := (inner.append closing).behind (show opensName '<'.toNat = false by decide)
    simpa [formalsText] using whole

theorem thrown_reads (t : Thrown) : Reads t.text t.names := by
  cases t with
  | ofClass c => exact (class_type_reads c).behind (by decide)
  | ofVariable name => exact (reads_variable name).behind (by decide)

theorem result_reads {α : Type} {text : α → Text} {found : α → List Text} (result : Option α)
    (each : ∀ a, Reads (text a) (found a)) :
    Reads (result.elim void text) (result.elim [] found) := by
  cases result with
  | none => exact reads_mark (by decide)
  | some a => exact each a

-- Parameters in their brackets.
theorem parameters_read {α : Type} {text : α → Text} {found : α → List Text} (parameters : List α)
    (each : ∀ a, Reads (text a) (found a)) :
    Reads ('('.toNat :: parameters.flatMap text ++ [')'.toNat]) (parameters.flatMap found) := by
  have inner := reads_flat_map parameters fun a _ => each a
  have closing := reads_mark (show opensName ')'.toNat = false by decide)
  have whole := (inner.append closing).behind (show opensName '('.toNat = false by decide)
  simpa using whole

theorem signature_reads (s : Signature) : Reads s.text s.names := by
  cases s with
  | fieldDescriptor type => exact field_type_reads type
  | methodDescriptor parameters result =>
    exact (parameters_read parameters field_type_reads).append
      (result_reads result field_type_reads)
  | ofField type => exact reference_reads type
  | ofMethod formals parameters result thrown =>
    have front := (formals_read formals).append (parameters_read parameters java_type_reads)
    have back := (result_reads result java_type_reads).append
      (reads_flat_map thrown fun t _ => thrown_reads t)
    have whole := front.append back
    simpa [text, names] using whole
  | ofClass formals superclass interfaces =>
    exact ((formals_read formals).append (class_type_reads superclass)).append
      (reads_flat_map interfaces fun c _ => class_type_reads c)

-- Of any descriptor or signature, exactly the names of its class types are found, from left
-- to right and as often as they stand there.
theorem class_names_exact (s : Signature) : classNames s.text = s.names :=
  (signature_reads s).class_names

example : classNames "<LIST:Lp/O;T::Lp/C<TLIST;>.In<*>;>(TT;)TLIST;" =
    ["p/O", "p/C"].map Text.ofString := by cbv

end ClassAtlas.Descriptor
