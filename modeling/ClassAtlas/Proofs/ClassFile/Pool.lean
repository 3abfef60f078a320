import ClassAtlas.ClassFile.Basic

/-!
What stands at an index of the constant pool, and the tables that are made from the pool: they
answer as a search through the constants does.
-/

namespace ClassAtlas.ClassFile

def constantAt (pool : List Constant) (index : Nat) : Option Constant := (numbered pool).lookup index

def Constant.text? : Constant → Option Text
  | utf8 spelling => some spelling.text
  | _ => none

def textAt (pool : List Constant) (index : Nat) : Option Text :=
  (constantAt pool index).bind Constant.text?

-- The name that a class constant stands for.
def className? (pool : List Constant) : Constant → Option Text
  | .classRef name => textAt pool name.toNat
  | _ => none

section Lookup
variable {β : Type} (index k : Nat) (pool : List Constant)

-- The indices of the constants that follow are higher.
theorem lookup_below (below : k < index) : (numberedFrom index pool).lookup k = none := by
  induction pool generalizing index with
  | nil => rfl
  | cons constant pool ih =>
    have other : (k == index) = false := by
      rw [beq_eq_false_iff_ne]
      omega
    rw [numberedFrom, List.lookup_cons, other]
    exact ih (index + constant.slots) (by omega)

theorem lookup_filter_numbered (f : Constant → Option β) :
    ((numberedFrom index pool).filterMap fun entry => (f entry.2).map (entry.1, ·)).lookup k =
      ((numberedFrom index pool).lookup k).bind f := by
  induction pool generalizing index with
  | nil => rfl
  | cons constant pool ih =>
    rw [numberedFrom, List.lookup_cons, List.filterMap_cons]
    by_cases here : k = index
    · subst here
      have later : (numberedFrom (k + constant.slots) pool).lookup k = none :=
        lookup_below _ k pool (Nat.lt_add_of_pos_right constant.slots_pos)
      cases found : f constant with
      | none =>
        simp only [found, Option.map_none, beq_self_eq_true, Option.bind_some]
        rw [ih, later]
        rfl
      | some value => simp [found]
    · have other : (k == index) = false := beq_eq_false_iff_ne.mpr here
      cases found : f constant with
      | none =>
        simp only [Option.map_none, other]
        exact ih _
      | some value =>
        simp only [Option.map_some, List.lookup_cons, other]
        exact ih _

theorem text_table_from (table : TextTable) :
    ((numberedFrom index pool).foldl addText table)[k]? =
      (((numberedFrom index pool).lookup k).bind Constant.text?).or table[k]? := by
  induction pool generalizing index table with
  | nil => rfl
  | cons constant pool ih =>
    rw [numberedFrom, List.foldl_cons, ih, List.lookup_cons]
    by_cases here : k = index
    · subst here
      have later : (numberedFrom (k + constant.slots) pool).lookup k = none :=
        lookup_below _ k pool (Nat.lt_add_of_pos_right constant.slots_pos)
      rw [later, beq_self_eq_true]
      cases constant <;> simp [addText, Constant.text?]
    · have other : (k == index) = false := beq_eq_false_iff_ne.mpr here
      rw [other]
      have apart : (addText table (index, constant))[k]? = table[k]? := by
        cases constant with
        | utf8 spelling =>
          simp only [addText, Std.ExtTreeMap.getElem?_insert]
          rw [if_neg]
          rw [Nat.compare_eq_eq]
          exact fun same => here same.symm
        | _ => rfl
      rw [apart]

end Lookup

theorem numbered_constants (index : Nat) (pool : List Constant) :
    (numberedFrom index pool).map (·.2) = pool := by
  induction pool generalizing index with
  | nil => rfl
  | cons constant pool ih => rw [numberedFrom, List.map_cons, ih]

theorem mem_numbered {pool : List Constant} {constant : Constant} :
    constant ∈ pool ↔ ∃ index, (index, constant) ∈ numbered pool := by
  have same := numbered_constants 1 pool
  constructor
  · intro member
    rw [← same] at member
    obtain ⟨entry, found, rfl⟩ := List.mem_map.mp member
    exact ⟨entry.1, found⟩
  · intro found
    obtain ⟨index, found⟩ := found
    rw [← same]
    exact List.mem_map_of_mem found

theorem mem_of_constant_at {pool : List Constant} {index : Nat} {constant : Constant}
    (placed : constantAt pool index = some constant) : constant ∈ pool := by
  obtain ⟨before, behind, split, _⟩ := List.lookup_eq_some_iff.mp placed
  refine mem_numbered.mpr ⟨index, ?_⟩
  rw [split]
  exact List.mem_append_right before List.mem_cons_self

theorem text_table_at (pool : List Constant) (index : Nat) :
    (textTable pool)[index]? = textAt pool index := by
  unfold textTable numbered
  rw [text_table_from, Std.ExtTreeMap.getElem?_empty, Option.or_none]
  rfl

theorem lookup_ok_iff (pool : List Constant) (index : Nat) (text : Text) :
    (textTable pool).lookup index = .ok text ↔ textAt pool index = some text := by
  unfold TextTable.lookup
  rw [text_table_at]
  cases textAt pool index <;> simp

section Each
variable {α β ε : Type} {f : α → Except ε β} {g : α → Option β} {items : List α}

theorem bind_ok_iff {result : Except ε α} {value : β} :
    (result >>= f) = .ok value ↔ ∃ item, result = .ok item ∧ f item = .ok value := by
  cases result <;> simp [bind, Except.bind]

theorem bind_error_iff {result : Except ε α} {fault : ε} :
    (result >>= f) = .error fault ↔
      result = .error fault ∨ ∃ item, result = .ok item ∧ f item = .error fault := by
  cases result <;> simp [bind, Except.bind]

theorem map_error {fault : ε} (failed : items.mapM f = .error fault) :
    ∃ item, item ∈ items ∧ f item = .error fault := by
  induction items with
  | nil => cases failed
  | cons item items ih =>
    rw [List.mapM_cons] at failed
    rcases bind_error_iff.mp failed with first | ⟨value, _, failed⟩
    · exact ⟨item, List.mem_cons_self, first⟩
    rcases bind_error_iff.mp failed with rest | ⟨values, _, failed⟩
    · obtain ⟨found, member, failed⟩ := ih rest
      exact ⟨found, List.mem_cons_of_mem item member, failed⟩
    · cases failed

theorem map_ok_iff (same : ∀ item value, f item = .ok value ↔ g item = some value)
    (values : List β) : items.mapM f = .ok values ↔
      (∀ item, item ∈ items → (g item).isSome) ∧ values = items.filterMap g := by
  induction items generalizing values with
  | nil =>
    constructor
    · intro reads
      cases reads
      exact ⟨fun item member => absurd member List.not_mem_nil, rfl⟩
    · intro reads
      rw [reads.2]
      rfl
  | cons item items ih =>
    rw [List.mapM_cons, List.forall_mem_cons, List.filterMap_cons]
    cases found : g item with
    | none =>
      cases first : f item with
      | error fault => simp [bind, Except.bind]
      | ok value =>
        rw [(same item value).mp first] at found
        cases found
    | some value =>
      rw [(same item value).mpr found]
      cases rest : items.mapM f with
      | error fault =>
        have lacks : ¬ ∀ item, item ∈ items → (g item).isSome := by
          intro all
          have reads := (ih (items.filterMap g)).mpr ⟨all, rfl⟩
          rw [rest] at reads
          cases reads
        simp [bind, Except.bind, lacks]
      | ok others =>
        obtain ⟨all, isOthers⟩ := (ih others).mp rest
        subst isOthers
        constructor
        · intro reads
          cases reads
          exact ⟨⟨rfl, all⟩, rfl⟩
        · intro reads
          rw [reads.2]
          rfl

end Each

theorem lookup_error {texts : TextTable} {index : Nat} {fault : Fault}
    (failed : texts.lookup index = .error fault) : fault = .notUtf8 index := by
  unfold TextTable.lookup at failed
  split at failed <;> cases failed
  rfl

theorem class_names_error {pool : List Constant} {fault : Fault}
    (failed : classNames pool = .error fault) : ∃ index, fault = .notUtf8 index := by
  obtain ⟨entry, _, failed⟩ := map_error failed
  rcases bind_error_iff.mp failed with missing | ⟨text, _, failed⟩
  · exact ⟨entry.2, lookup_error missing⟩
  · cases failed

theorem class_named_error {names : List (Nat × Text)} {index : Nat} {fault : Fault}
    (failed : classNamed names index = .error fault) : fault = .notClass index := by
  unfold classNamed at failed
  split at failed <;> cases failed
  rfl

/-! The class constants with their names. -/

def namedEntries (pool : List Constant) : List (Nat × Text) :=
  (numbered pool).filterMap fun entry => (className? pool entry.2).map (entry.1, ·)

theorem named_entries_names (pool : List Constant) :
    (namedEntries pool).map (·.2) = pool.filterMap (className? pool) := by
  unfold namedEntries
  rw [List.map_filterMap]
  conv => rhs; arg 2; rw [← numbered_constants 1 pool]
  rw [List.filterMap_map]
  congr 1
  funext entry
  change _ = className? pool entry.2
  cases className? pool entry.2 <;> rfl

theorem named_entries_at (pool : List Constant) (index : Nat) :
    (namedEntries pool).lookup index = (constantAt pool index).bind (className? pool) :=
  lookup_filter_numbered 1 index pool (className? pool)

theorem class_entries_named (pool : List Constant) :
    (classEntries pool).filterMap (fun entry => (textAt pool entry.2).map (entry.1, ·)) =
      namedEntries pool := by
  unfold classEntries namedEntries
  rw [List.filterMap_filterMap]
  congr 1
  funext entry
  cases entry.2 <;> rfl

theorem named_entry_ok_iff (pool : List Constant) (entry : Nat × Nat) (named : Nat × Text) :
    (do return (entry.1, ← (textTable pool).lookup entry.2) : Except Fault (Nat × Text)) =
      .ok named ↔ (textAt pool entry.2).map (entry.1, ·) = some named := by
  rw [bind_ok_iff, Option.map_eq_some_iff]
  constructor
  · intro looked
    obtain ⟨text, found, same⟩ := looked
    cases same
    exact ⟨text, (lookup_ok_iff pool entry.2 text).mp found, rfl⟩
  · intro found
    obtain ⟨text, found, rfl⟩ := found
    exact ⟨text, (lookup_ok_iff pool entry.2 text).mpr found, rfl⟩

theorem class_names_ok_iff (pool : List Constant) (names : List (Nat × Text)) :
    classNames pool = .ok names ↔
      (∀ name, .classRef name ∈ pool → (textAt pool name.toNat).isSome) ∧
        names = namedEntries pool := by
  unfold classNames
  rw [map_ok_iff (named_entry_ok_iff pool), class_entries_named]
  refine and_congr_left fun _ => ⟨?_, ?_⟩
  · intro all name member
    obtain ⟨index, found⟩ := mem_numbered.mp member
    have listed : (index, name.toNat) ∈ classEntries pool := List.mem_filterMap.mpr ⟨_, found, rfl⟩
    have looked := all _ listed
    rwa [Option.isSome_map] at looked
  · intro all entry member
    obtain ⟨⟨index, constant⟩, found, isEntry⟩ := List.mem_filterMap.mp member
    rw [Option.isSome_map]
    cases constant with
    | classRef name =>
      cases isEntry
      exact all name (mem_numbered.mpr ⟨index, found⟩)
    | _ => cases isEntry

end ClassAtlas.ClassFile
