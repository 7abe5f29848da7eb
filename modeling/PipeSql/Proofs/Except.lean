import Mathlib.Data.List.Basic
import Mathlib.Data.List.Forall2

/-! # Computations that may fail

When a sequence of steps succeeds. -/

namespace PipeSql

variable {ε α β : Type}

theorem bind_eq_ok_iff {x : Except ε α} {f : α → Except ε β} {b : β} :
    (x >>= f) = .ok b ↔ ∃ a, x = .ok a ∧ f a = .ok b := by
  cases x with
  | error e => simp [bind, Except.bind]
  | ok a => simp [bind, Except.bind]

/-- A check in front of a step. -/
theorem check_bind_eq_ok_iff {x : Except ε Unit} {f : Unit → Except ε β} {b : β} :
    (x >>= f) = .ok b ↔ x = .ok () ∧ f () = .ok b := by
  cases x with
  | error e => simp [bind, Except.bind]
  | ok a => simp [bind, Except.bind]

/-- Steps that agree on the result they go on from. -/
theorem bind_congr_of_eq_ok {x : Except ε α} {f g : α → Except ε β}
    (h : ∀ a, x = .ok a → f a = g a) : x >>= f = x >>= g := by
  cases x with
  | error e => rfl
  | ok a => exact h a rfl

theorem map_eq_ok_iff {x : Except ε α} {f : α → β} {b : β} :
    x.map f = .ok b ↔ ∃ a, x = .ok a ∧ f a = b := by
  cases x <;> simp [Except.map]

theorem map_eq_error_iff {x : Except ε α} {f : α → β} {e : ε} :
    x.map f = .error e ↔ x = .error e := by
  cases x <;> simp [Except.map]

theorem pure_eq_ok_iff {a b : α} : (pure a : Except ε α) = .ok b ↔ a = b := by
  simp [pure, Except.pure]

theorem forM_eq_ok_iff {f : α → Except ε Unit} {as : List α} :
    forM as f = .ok () ↔ ∀ a ∈ as, f a = .ok () := by
  induction as with
  | nil => simp [pure_eq_ok_iff]
  | cons a as ih => rw [List.forM_cons, check_bind_eq_ok_iff, ih, List.forall_mem_cons]

/-- What each step of a fold keeps, the whole fold keeps. -/
theorem foldlM_keeps {f : β → α → Except ε β} {P : β → Prop} {as : List α} {b c : β}
    (hstep : ∀ a ∈ as, ∀ b c, P b → f b a = .ok c → P c) (hb : P b)
    (h : as.foldlM f b = .ok c) : P c := by
  induction as generalizing b with
  | nil =>
    obtain rfl : b = c := pure_eq_ok_iff.mp h
    exact hb
  | cons a as ih =>
    rw [List.foldlM_cons, bind_eq_ok_iff] at h
    obtain ⟨middle, hfirst, hrest⟩ := h
    have hmiddle := hstep a List.mem_cons_self b middle hb hfirst
    exact ih (fun a ha => hstep a (List.mem_cons_of_mem _ ha)) hmiddle hrest

/-- Folds whose steps agree where a property holds that they keep. -/
theorem foldlM_congr {f g : β → α → Except ε β} {P : β → Prop} {as : List α} {b : β}
    (hstep : ∀ a ∈ as, ∀ b, P b → f b a = g b a)
    (hkeeps : ∀ a ∈ as, ∀ b c, P b → g b a = .ok c → P c) (hb : P b) :
    as.foldlM f b = as.foldlM g b := by
  induction as generalizing b with
  | nil => rfl
  | cons a as ih =>
    rw [List.foldlM_cons, List.foldlM_cons, hstep a List.mem_cons_self b hb]
    cases hfirst : g b a with
    | error e => rfl
    | ok c =>
      have hc := hkeeps a List.mem_cons_self b c hb hfirst
      exact ih (fun a ha => hstep a (List.mem_cons_of_mem _ ha))
        (fun a ha => hkeeps a (List.mem_cons_of_mem _ ha)) hc

/-- A fold of steps that always succeed succeeds. -/
theorem exists_foldlM_eq_ok {f : β → α → Except ε β} {as : List α} (b : β)
    (hstep : ∀ a ∈ as, ∀ b, ∃ c, f b a = .ok c) : ∃ c, as.foldlM f b = .ok c := by
  induction as generalizing b with
  | nil => exact ⟨b, rfl⟩
  | cons a as ih =>
    obtain ⟨middle, hfirst⟩ := hstep a List.mem_cons_self b
    obtain ⟨c, hrest⟩ := ih middle fun a ha => hstep a (List.mem_cons_of_mem _ ha)
    exact ⟨c, by rw [List.foldlM_cons, bind_eq_ok_iff]; exact ⟨middle, hfirst, hrest⟩⟩

theorem exists_of_mapM_eq_ok {f : α → Except ε β} {as : List α} {bs : List β}
    (h : as.mapM f = .ok bs) : ∀ b ∈ bs, ∃ a ∈ as, f a = .ok b := by
  induction as generalizing bs with
  | nil =>
    obtain rfl : [] = bs := pure_eq_ok_iff.mp h
    simp
  | cons a as ih =>
    simp only [List.mapM_cons, bind_eq_ok_iff, pure_eq_ok_iff] at h
    obtain ⟨first, hfirst, rest, hrest, rfl⟩ := h
    intro b hb
    rcases List.mem_cons.mp hb with rfl | hb
    · exact ⟨a, List.mem_cons_self, hfirst⟩
    · obtain ⟨a', ha', hb⟩ := ih hrest b hb
      exact ⟨a', List.mem_cons_of_mem _ ha', hb⟩

/-- Steps succeed together if and only if they succeed one by one. -/
theorem mapM_eq_ok_iff {f : α → Except ε β} {as : List α} {bs : List β} :
    as.mapM f = .ok bs ↔ List.Forall₂ (fun a b => f a = .ok b) as bs := by
  induction as generalizing bs with
  | nil =>
    rw [List.mapM_nil, pure_eq_ok_iff, List.forall₂_nil_left_iff, eq_comm]
  | cons a as ih =>
    simp only [List.mapM_cons, bind_eq_ok_iff, pure_eq_ok_iff, ih, List.forall₂_cons_left_iff]
    constructor
    · rintro ⟨b, hb, bs, hbs, rfl⟩
      exact ⟨b, bs, hb, hbs, rfl⟩
    · rintro ⟨b, bs, hb, hbs, rfl⟩
      exact ⟨b, hb, bs, hbs, rfl⟩

theorem mapM_ne_nil {f : α → Except ε β} {as : List α} {bs : List β} (h : as.mapM f = .ok bs)
    (has : as ≠ []) : bs ≠ [] := by
  obtain ⟨a, rest, rfl⟩ := List.exists_cons_of_ne_nil has
  simp only [List.mapM_cons, bind_eq_ok_iff, pure_eq_ok_iff] at h
  obtain ⟨first, -, others, -, rfl⟩ := h
  exact List.cons_ne_nil first others

/-! ## Lists of optional values -/

section Options

variable {α β : Type*} {f g : α → Option β} {l : List α}

theorem mapM_congr (h : ∀ a ∈ l, f a = g a) : l.mapM f = l.mapM g := by
  induction l with
  | nil => rfl
  | cons a l ih =>
    rw [List.mapM_cons, List.mapM_cons, h a List.mem_cons_self,
      ih fun a ha => h a (List.mem_cons_of_mem _ ha)]

theorem exists_mapM_forall₂ {R : α → β → Prop} (h : ∀ a ∈ l, ∃ b, f a = some b ∧ R a b) :
    ∃ bs, l.mapM f = some bs ∧ List.Forall₂ R l bs := by
  induction l with
  | nil => exact ⟨[], rfl, .nil⟩
  | cons a l ih =>
    obtain ⟨b, hb, hr⟩ := h a List.mem_cons_self
    obtain ⟨bs, hbs, hrs⟩ := ih fun a ha => h a (List.mem_cons_of_mem _ ha)
    exact ⟨b :: bs, by simp [hb, hbs], .cons hr hrs⟩

theorem isSome_mapM (h : ∀ a ∈ l, (f a).isSome) : (l.mapM f).isSome := by
  obtain ⟨bs, hbs, -⟩ := exists_mapM_forall₂ (R := fun _ _ => True) fun a ha =>
    (Option.isSome_iff_exists.mp (h a ha)).imp fun b hb => ⟨hb, trivial⟩
  rw [hbs]
  rfl

end Options

end PipeSql
