import Mathlib
import ClusterBench.Failure

/-!
# Computations that may fail

File work and runs on a cluster are computations that change a state, keep what they have changed
when they fail, and stop there. `Keeps` says that a computation leaves a view of the state as it is,
whether it fails or not; `FailsOnly` says what kind of failure it has if it fails.
-/

namespace ClusterBench

theorem ok_bind {ε α β : Type} (a : α) (f : α → Except ε β) : (Except.ok a >>= f) = f a := rfl

theorem bind_eq_ok {ε α β : Type} {x : Except ε α} {f : α → Except ε β} {b : β} :
    (x >>= f) = .ok b ↔ ∃ a, x = .ok a ∧ f a = .ok b := by
  cases x <;> simp [bind, Except.bind]

theorem exists_eq_ok_of_isOk {ε α : Type} {x : Except ε α} (h : x.isOk = true) :
    ∃ a, x = .ok a := by
  cases x with
  | error e => cases h
  | ok a => exact ⟨a, rfl⟩

theorem inWord_eq_ok {m n : ℕ} : inWord m = .ok n ↔ m < 2 ^ wordBits ∧ m = n := by
  unfold inWord
  split_ifs <;> simp_all

theorem inWord_eq_error {n : ℕ} {f : Failure} :
    inWord n = .error f ↔ 2 ^ wordBits ≤ n ∧ f = .broken := by
  unfold inWord
  split_ifs with h
  · exact iff_of_false nofun fun hlarge => absurd h (not_lt.mpr hlarge.1)
  · rw [and_iff_right (not_lt.mp h), Except.error.injEq, eq_comm]

theorem map_injective {ε α β : Type} {f : α → β} (hf : Function.Injective f) :
    Function.Injective (f <$> · : Except ε α → Except ε β) := by
  intro x y h
  cases x with
  | error e =>
    cases y with
    | error e' =>
      cases h
      rfl
    | ok b => cases h
  | ok a =>
    cases y with
    | error e => cases h
    | ok b => rw [hf (Except.ok.inj h)]

section Traversals

variable {ε α β : Type} {f : α → Except ε β} {as : List α}

/-- A traversal gives what its steps give, or it fails as one of its steps does. -/
theorem mapM_cases {R : α → β → Prop} {E : α → ε → Prop}
    (h : ∀ a ∈ as, (∃ b, f a = .ok b ∧ R a b) ∨ ∃ e, f a = .error e ∧ E a e) :
    (∃ bs, as.mapM f = .ok bs ∧ List.Forall₂ R as bs) ∨
      ∃ e, as.mapM f = .error e ∧ ∃ a ∈ as, E a e := by
  induction as with
  | nil => exact Or.inl ⟨[], rfl, .nil⟩
  | cons a as ih =>
    rw [List.mapM_cons]
    rcases h a List.mem_cons_self with ⟨b, hb, hab⟩ | ⟨e, he, hae⟩
    · rw [hb, ok_bind]
      rcases ih fun a ha => h a (List.mem_cons_of_mem _ ha) with
        ⟨bs, hbs, hall⟩ | ⟨e, he, a, ha, hae⟩
      · exact Or.inl ⟨b :: bs, by rw [hbs]; rfl, .cons hab hall⟩
      · exact Or.inr ⟨e, by rw [he]; rfl, a, List.mem_cons_of_mem _ ha, hae⟩
    · exact Or.inr ⟨e, by rw [he]; rfl, a, List.mem_cons_self, hae⟩

theorem exists_mapM_eq_ok {R : α → β → Prop} (h : ∀ a ∈ as, ∃ b, f a = .ok b ∧ R a b) :
    ∃ bs, as.mapM f = .ok bs ∧ List.Forall₂ R as bs := by
  rcases mapM_cases (E := fun _ _ => False) fun a ha => Or.inl (h a ha) with
    hok | ⟨_, _, _, _, hnone⟩
  · exact hok
  · exact absurd hnone id

theorem mapM_steps (f : α → Except ε β) (as : List α) :
    (∃ bs, as.mapM f = .ok bs ∧ List.Forall₂ (f · = .ok ·) as bs) ∨
      ∃ e, as.mapM f = .error e ∧ ∃ a ∈ as, f a = .error e := by
  apply mapM_cases
  intro a _
  cases f a <;> simp

theorem forall₂_of_mapM_eq_ok {bs : List β} (h : as.mapM f = .ok bs) :
    List.Forall₂ (f · = .ok ·) as bs := by
  rcases mapM_steps f as with ⟨bs', hok, hall⟩ | ⟨e, herror, -⟩
  · rw [hok] at h
    cases h
    exact hall
  · rw [herror] at h
    cases h

theorem exists_of_mapM_eq_error {e : ε} (h : as.mapM f = .error e) :
    ∃ a ∈ as, f a = .error e := by
  rcases mapM_steps f as with ⟨bs, hok, -⟩ | ⟨e', herror, hstep⟩
  · rw [hok] at h
    cases h
  · rw [herror] at h
    cases h
    exact hstep

/-- A traversal fails as the first of its steps that fails. -/
theorem mapM_eq_error_iff {e : ε} : as.mapM f = .error e ↔ ∃ before a after,
    as = before ++ a :: after ∧ (∀ b ∈ before, ∃ c, f b = .ok c) ∧ f a = .error e := by
  constructor
  · intro h
    induction as with
    | nil => cases h
    | cons a as ih =>
      rw [List.mapM_cons] at h
      rcases ha : f a with e' | b
      · rw [ha] at h
        cases h
        exact ⟨[], a, as, rfl, List.forall_mem_nil _, ha⟩
      · rw [ha, ok_bind] at h
        rcases has : as.mapM f with e' | bs
        · rw [has] at h
          cases h
          obtain ⟨before, c, after, rfl, hbefore, hc⟩ := ih has
          exact ⟨a :: before, c, after, rfl, List.forall_mem_cons.mpr ⟨⟨b, ha⟩, hbefore⟩, hc⟩
        · rw [has] at h
          cases h
  · rintro ⟨before, a, after, rfl, hbefore, ha⟩
    induction before with
    | nil =>
      rw [List.nil_append, List.mapM_cons, ha]
      rfl
    | cons b before ih =>
      rw [List.forall_mem_cons] at hbefore
      obtain ⟨⟨c, hc⟩, hbefore⟩ := hbefore
      rw [List.cons_append, List.mapM_cons, hc, ok_bind, ih hbefore]
      rfl

theorem mapM_eq_mapM_id (f : α → Except ε β) (as : List α) : as.mapM f = (as.map f).mapM id := by
  rw [List.mapM_map]
  rfl

theorem mapM_congr {g : α → Except ε β} (h : ∀ a ∈ as, f a = g a) : as.mapM f = as.mapM g := by
  rw [mapM_eq_mapM_id f, mapM_eq_mapM_id g, List.map_congr_left h]

theorem mapM_eq_ok_iff {bs : List β} : as.mapM f = .ok bs ↔ as.map f = bs.map .ok := by
  constructor
  · intro h
    rw [← List.forall₂_eq_eq_eq, List.forall₂_map_left_iff, List.forall₂_map_right_iff]
    exact forall₂_of_mapM_eq_ok h
  · intro h
    rw [mapM_eq_mapM_id, h, List.mapM_map]
    exact List.mapM_pure.trans (congrArg Except.ok (List.map_id bs))

theorem forall_mem_of_forall₂ {R : α → β → Prop} {P : β → Prop} {bs : List β}
    (h : List.Forall₂ R as bs) (hR : ∀ a b, R a b → P b) : ∀ b ∈ bs, P b := by
  induction h with
  | nil => simp
  | cons hab _ ih => exact List.forall_mem_cons.mpr ⟨hR _ _ hab, ih⟩

theorem forall_mem_of_mapM_eq_ok {P : β → Prop} {bs : List β} (h : as.mapM f = .ok bs)
    (hf : ∀ a b, f a = .ok b → P b) : ∀ b ∈ bs, P b :=
  forall_mem_of_forall₂ (forall₂_of_mapM_eq_ok h) hf

theorem mapM_id_eq_ok {results : List (Except ε α)} {values : List α}
    (h : results.mapM id = .ok values) : results = values.map .ok := by
  rw [← mapM_eq_ok_iff.mp h, List.map_id]

/-- Traversals whose steps give the same exactly under one condition give the same exactly under
this condition. -/
theorem mapM_eq_iff {g : α → Except ε β} {P : Prop} (hne : as ≠ []) {bs : List β}
    (h : as.mapM f = .ok bs)
    (hstep : ∀ a ∈ as, ∀ b, f a = .ok b → ∃ c, g a = .ok c ∧ (b = c ↔ P)) :
    ∃ cs, as.mapM g = .ok cs ∧ (bs = cs ↔ P) := by
  induction as generalizing bs with
  | nil => exact absurd rfl hne
  | cons a as ih =>
    rw [List.mapM_cons] at h
    obtain ⟨b, hb, h⟩ := bind_eq_ok.mp h
    obtain ⟨bs, hbs, hpure⟩ := bind_eq_ok.mp h
    cases hpure
    obtain ⟨c, hc, hbc⟩ := hstep a List.mem_cons_self b hb
    rw [List.mapM_cons, hc, ok_bind]
    cases as with
    | nil =>
      cases hbs
      exact ⟨[c], rfl, by simp [hbc]⟩
    | cons a' as =>
      obtain ⟨cs, hcs, hiff⟩ := ih (List.cons_ne_nil a' as) hbs fun a ha =>
        hstep a (List.mem_cons_of_mem _ ha)
      exact ⟨c :: cs, by rw [hcs]; rfl, by simp [hbc, hiff]⟩

theorem forall_mem_iff_of_forall₂ {P : α → Prop} {Q : β → Prop} {bs : List β}
    (h : List.Forall₂ (fun a b => P a ↔ Q b) as bs) : (∀ a ∈ as, P a) ↔ ∀ b ∈ bs, Q b := by
  induction h with
  | nil => simp
  | cons hab _ ih => rw [List.forall_mem_cons, List.forall_mem_cons, hab, ih]

end Traversals

variable {S α β τ : Type}

theorem bind_apply (x : ExceptT Failure (StateM S) α) (f : α → ExceptT Failure (StateM S) β)
    (s : S) : (x >>= f) s =
      match x s with
      | (.ok a, s) => f a s
      | (.error e, s) => (.error e, s) := by
  simp only [bind, ExceptT.bind, ExceptT.mk, StateT.bind]
  rcases x s with ⟨_ | _, s⟩ <;> rfl

theorem pure_apply (a : α) (s : S) : (pure a : ExceptT Failure (StateM S) α) s = (.ok a, s) := rfl

theorem bind_apply_eq_ok {x : ExceptT Failure (StateM S) α} {f : α → ExceptT Failure (StateM S) β}
    {s s'' : S} {b : β} :
    (x >>= f) s = (.ok b, s'') ↔ ∃ a s', x s = (.ok a, s') ∧ f a s' = (.ok b, s'') := by
  rw [bind_apply]
  constructor
  · intro h
    rcases hrun : x s with ⟨e | a, s'⟩
    · rw [hrun] at h
      cases h
    · rw [hrun] at h
      exact ⟨a, s', rfl, h⟩
  · rintro ⟨a, s', hrun, hnext⟩
    rw [hrun]
    exact hnext

theorem mapM_cons_apply_eq_ok {f : α → ExceptT Failure (StateM S) β} {a : α} {as : List α}
    {bs : List β} {s s'' : S} : (a :: as).mapM f s = (.ok bs, s'') ↔
      ∃ b s' rest, f a s = (.ok b, s') ∧ as.mapM f s' = (.ok rest, s'') ∧ bs = b :: rest := by
  simp only [List.mapM_cons, bind_apply_eq_ok, pure_apply]
  constructor
  · rintro ⟨b, s', hb, rest, _, hrest, ⟨⟩⟩
    exact ⟨b, s', rest, hb, hrest, rfl⟩
  · rintro ⟨b, s', rest, hb, hrest, rfl⟩
    exact ⟨b, s', hb, rest, s'', hrest, rfl⟩

theorem bind_apply_eq_error {x : ExceptT Failure (StateM S) α}
    {f : α → ExceptT Failure (StateM S) β} {s : S} {e : Failure} :
    ((x >>= f) s).1 = .error e ↔
      (x s).1 = .error e ∨ ∃ a s', x s = (.ok a, s') ∧ (f a s').1 = .error e := by
  rw [bind_apply]
  rcases x s with ⟨e' | a, s'⟩
  · constructor
    · rintro ⟨⟩
      exact Or.inl rfl
    · rintro (⟨⟨⟩⟩ | ⟨_, _, ⟨⟩, -⟩)
      rfl
  · constructor
    · exact fun h => Or.inr ⟨a, s', rfl, h⟩
    · rintro (h | ⟨_, _, ⟨⟩, h⟩)
      · cases h
      · exact h

theorem mapM_cons_apply_eq_error {f : α → ExceptT Failure (StateM S) β} {a : α} {as : List α}
    {s : S} {e : Failure} : ((a :: as).mapM f s).1 = .error e ↔
      (f a s).1 = .error e ∨ ∃ b s', f a s = (.ok b, s') ∧ (as.mapM f s').1 = .error e := by
  have hpure (b : β) (s' : S) : ((as.mapM f >>= fun bs => pure (b :: bs)) s').1 = .error e ↔
      (as.mapM f s').1 = .error e := by
    rw [bind_apply_eq_error]
    exact ⟨fun h => h.elim id fun ⟨_, _, _, hpure⟩ => (nomatch hpure), Or.inl⟩
  rw [List.mapM_cons, bind_apply_eq_error]
  simp only [hpure]

theorem length_of_mapM_apply {f : α → ExceptT Failure (StateM S) β} {as : List α} {bs : List β}
    {s s' : S} (h : as.mapM f s = (.ok bs, s')) : bs.length = as.length := by
  induction as generalizing bs s with
  | nil =>
    cases h
    rfl
  | cons a as ih =>
    obtain ⟨b, later, rest, -, hrest, rfl⟩ := mapM_cons_apply_eq_ok.mp h
    rw [List.length_cons, List.length_cons, ih hrest]

def Keeps (view : S → τ) (x : ExceptT Failure (StateM S) α) : Prop :=
  ∀ s, view (x s).2 = view s

namespace Keeps

variable {view : S → τ}

theorem pure (a : α) : Keeps view (Pure.pure a : ExceptT Failure (StateM S) α) := fun _ => rfl

theorem bind {x : ExceptT Failure (StateM S) α} {f : α → ExceptT Failure (StateM S) β}
    (hx : Keeps view x) (hf : ∀ a, Keeps view (f a)) : Keeps view (x >>= f) := by
  intro s
  have hs := hx s
  rw [bind_apply]
  rcases hrun : x s with ⟨e | a, s'⟩
  · rwa [hrun] at hs
  · rw [hrun] at hs
    exact (hf a s').trans hs

theorem mapM {f : α → ExceptT Failure (StateM S) β} (hf : ∀ a, Keeps view (f a)) (as : List α) :
    Keeps view (as.mapM f) := by
  induction as with
  | nil => exact pure []
  | cons a as ih =>
    rw [List.mapM_cons]
    exact bind (hf a) fun _ => bind ih fun _ => pure _

theorem forM {f : α → ExceptT Failure (StateM S) Unit} (hf : ∀ a, Keeps view (f a))
    (as : List α) : Keeps view (as.forM f) := by
  induction as with
  | nil => exact pure ()
  | cons a as ih => exact bind (hf a) fun _ => ih

theorem forIn {f : α → β → ExceptT Failure (StateM S) (ForInStep β)}
    (hf : ∀ a b, Keeps view (f a b)) (as : List α) (b : β) : Keeps view (forIn as b f) := by
  induction as generalizing b with
  | nil => exact pure b
  | cons a as ih =>
    rw [List.forIn_cons]
    apply bind (hf a b)
    intro step
    cases step with
    | done b => exact pure b
    | yield b => exact ih b

end Keeps

/-- Steps that change nothing give what each of them gives alone. -/
theorem forall₂_of_mapM_apply {f : α → ExceptT Failure (StateM S) β}
    (hf : ∀ a, Keeps id (f a)) {as : List α} {bs : List β} {s s' : S}
    (h : as.mapM f s = (.ok bs, s')) : List.Forall₂ (fun a b => (f a s).1 = .ok b) as bs := by
  induction as generalizing bs with
  | nil =>
    cases h
    exact .nil
  | cons a as ih =>
    obtain ⟨b, later, rest, hb, hrest, rfl⟩ := mapM_cons_apply_eq_ok.mp h
    have hsame : later = s := by
      have hkept := hf a s
      rwa [hb] at hkept
    rw [hsame] at hrest
    exact .cons (by rw [hb]) (ih hrest)

def Total (x : ExceptT Failure (StateM S) α) : Prop := ∀ s, ∃ a, (x s).1 = .ok a

namespace Total

theorem pure (a : α) : Total (Pure.pure a : ExceptT Failure (StateM S) α) := fun _ => ⟨a, rfl⟩

theorem bind {x : ExceptT Failure (StateM S) α} {f : α → ExceptT Failure (StateM S) β}
    (hx : Total x) (hf : ∀ a, Total (f a)) : Total (x >>= f) := by
  intro s
  obtain ⟨a, ha⟩ := hx s
  rw [bind_apply]
  rcases hrun : x s with ⟨e | b, s'⟩
  · rw [hrun] at ha
    cases ha
  · exact hf b s'

theorem mapM {f : α → ExceptT Failure (StateM S) β} (hf : ∀ a, Total (f a)) (as : List α) :
    Total (as.mapM f) := by
  induction as with
  | nil => exact pure []
  | cons a as ih =>
    rw [List.mapM_cons]
    exact bind (hf a) fun _ => bind ih fun _ => pure _

end Total

/-- Whatever goes wrong has a cause of a kind. -/
def FailsOnly (p : Cause → Prop) (x : ExceptT Failure (StateM S) α) : Prop :=
  ∀ s f, (x s).1 = .error f → p f.cause

namespace FailsOnly

variable {p : Cause → Prop}

theorem pure (a : α) : FailsOnly p (Pure.pure a : ExceptT Failure (StateM S) α) := nofun

theorem bind {x : ExceptT Failure (StateM S) α} {f : α → ExceptT Failure (StateM S) β}
    (hx : FailsOnly p x) (hf : ∀ a, FailsOnly p (f a)) : FailsOnly p (x >>= f) := by
  intro s failure h
  rw [bind_apply] at h
  rcases hrun : x s with ⟨e | a, s'⟩
  · rw [hrun] at h
    cases h
    exact hx s failure (by rw [hrun])
  · rw [hrun] at h
    exact hf a s' failure h

theorem mapM {f : α → ExceptT Failure (StateM S) β} (hf : ∀ a, FailsOnly p (f a)) (as : List α) :
    FailsOnly p (as.mapM f) := by
  induction as with
  | nil => exact pure []
  | cons a as ih =>
    rw [List.mapM_cons]
    exact bind (hf a) fun _ => bind ih fun _ => pure _

end FailsOnly

end ClusterBench
