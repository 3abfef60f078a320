import ClassAtlas.Graph.Buckets

/-!
Computations that go through sets in any order. Each time a set is gone through its members may come
in another order, whether or not the set has changed since; what holds for all these orders is said
by `Always`, and that they make no difference by `Gives`.
-/

namespace ClassAtlas

-- One way to go through a set, whatever is in it.
structure Arrangement where
  arrange : List Ref → List Ref
  all : ∀ members, (arrange members).Perm members

-- The ways in which the sets are gone through, one after the other.
abbrev Orders := Nat → Arrangement

abbrev Anyhow (α : Type) := StateM Orders α

namespace Anyhow
variable {α β : Type} {P : α → Prop} {Q : β → Prop} {act : Anyhow α} {next : α → Anyhow β}

def result (act : Anyhow α) (orders : Orders) : α := (act.run orders).run.1

def through (members : List Ref) : Anyhow (List Ref) :=
  modifyGet fun orders => ((orders 0).arrange members, fun later => orders (later + 1))

-- Whatever the orders, this is true of the result.
def Always (act : Anyhow α) (P : α → Prop) : Prop := ∀ orders, P (act.result orders)

-- Whatever the orders, this is the result.
def Gives (act : Anyhow α) (a : α) : Prop := act.Always (· = a)

theorem always_pure {a : α} (given : P a) : Always (pure a) P := fun _ => given

theorem Always.bind (first : act.Always P) (later : ∀ a, P a → (next a).Always Q) :
    Always (act >>= next) Q := fun orders => later _ (first orders) _

theorem gives_pure (a : α) : Gives (pure a) a := fun _ => rfl

theorem Gives.bind {a : α} (first : act.Gives a) (later : (next a).Always Q) :
    Always (act >>= next) Q :=
  Always.bind first fun _ same => same ▸ later

theorem always_through (members : List Ref) : (through members).Always (·.Perm members) :=
  fun orders => (orders 0).all members

-- A set need not be gone through as it is kept.
example : (through [⟨0, "a"⟩, ⟨1, "b"⟩]).result (fun _ => ⟨List.reverse, List.reverse_perm⟩) =
    [⟨1, "b"⟩, ⟨0, "a"⟩] := rfl

theorem gives_map {f : β → Anyhow α} {g : β → α} (list : List β) (each : ∀ b, (f b).Gives (g b)) :
    Gives (list.mapM f) (list.map g) := by
  induction list with
  | nil => exact gives_pure []
  | cons b list ih =>
    rw [List.mapM_cons, List.map_cons]
    exact (each b).bind (ih.bind (gives_pure _))

theorem gives_fold {f : α → β → Anyhow α} {g : α → β → α} (list : List β)
    (each : ∀ a b, (f a b).Gives (g a b)) (start : α) :
    Gives (list.foldlM f start) (list.foldl g start) := by
  induction list generalizing start with
  | nil => exact gives_pure start
  | cons b list ih =>
    rw [List.foldlM_cons, List.foldl_cons]
    exact (each start b).bind (ih _)

/-! Steps until there is none left, which is known to happen because each lessens a measure. -/

section
variable {σ : Type}

def Descends (measure : σ → Nat × Nat) (step : σ → Anyhow (Option σ)) : Prop :=
  ∀ s, (step s).Always fun after => ∀ next, after = some next →
    Prod.Lex (· < ·) (· < ·) (measure next) (measure s)

def loop (measure : σ → Nat × Nat) (step : σ → Anyhow (Option σ))
    (descends : Descends measure step) (s : σ) : Anyhow σ := fun orders =>
  match _more : (step s).run orders with
  | (none, left) => pure (s, left)
  | (some next, left) => loop measure step descends next left
  termination_by measure s
  decreasing_by exact descends s _ next (congrArg Prod.fst _more)

theorem loop_next {measure : σ → Nat × Nat} {step : σ → Anyhow (Option σ)}
    (descends : Descends measure step) (s : σ) : loop measure step descends s =
      step s >>= fun
        | none => pure s
        | some next => loop measure step descends next := by
  funext orders
  rw [loop]
  simp only [bind, StateT.bind]
  split
  · rename_i left stopped
    rw [StateT.run] at stopped
    rw [stopped]
    rfl
  · rename_i next left stepped
    rw [StateT.run] at stepped
    rw [stepped]

end

end Anyhow

end ClassAtlas
