import Mathlib.Data.List.Forall2

/-! Inversion of computations that may fail: what a successful result says
about the steps that led to it. -/
namespace WorldChain.Library.Fallible

variable {ε α β γ δ : Type}

theorem bind_eq_ok {x : Except ε α} {f : α → Except ε β} {b : β} :
    x >>= f = .ok b ↔ ∃ a, x = .ok a ∧ f a = .ok b := by
  cases x with
  | error e => simp [bind, Except.bind]
  | ok a => simp [bind, Except.bind]

theorem map_eq_ok {x : Except ε α} {f : α → β} {b : β} :
    x.map f = .ok b ↔ ∃ a, x = .ok a ∧ f a = b := by
  cases x with
  | error e => simp [Except.map]
  | ok a => simp [Except.map]

theorem exists_ok {x : Except ε α} (h : x.isOk) : ∃ a, x = .ok a := by
  cases x with
  | error e => cases h
  | ok a => exact ⟨a, rfl⟩

/-- Both computations fail, or both succeed with related results. -/
def Agree (related : α → β → Prop) : Except ε α → Except δ β → Prop
  | .ok a, .ok b => related a b
  | .error _, .error _ => True
  | _, _ => False

theorem Agree.bind {related : α → β → Prop} {related' : γ → δ → Prop} {x : Except ε α}
    {y : Except ε β} {f : α → Except ε γ} {g : β → Except ε δ} (hxy : Agree related x y)
    (hfg : ∀ a b, x = .ok a → y = .ok b → related a b → Agree related' (f a) (g b)) :
    Agree related' (x >>= f) (y >>= g) := by
  cases x with
  | error e =>
      cases y with
      | error e' => trivial
      | ok b => exact hxy.elim
  | ok a =>
      cases y with
      | error e' => exact hxy.elim
      | ok b => exact hfg a b rfl rfl hxy

theorem Agree.map {related : α → β → Prop} {related' : γ → δ → Prop} {ε' : Type}
    {x : Except ε α} {y : Except ε' β} {f : α → γ} {g : β → δ} (hxy : Agree related x y)
    (hfg : ∀ a b, related a b → related' (f a) (g b)) : Agree related' (x.map f) (y.map g) := by
  cases x with
  | error e =>
      cases y with
      | error e' => trivial
      | ok b => exact hxy.elim
  | ok a =>
      cases y with
      | error e' => exact hxy.elim
      | ok b => exact hfg a b hxy

theorem Agree.of_ok {related : α → β → Prop} {x : Except ε α} {y : Except δ β} {a : α}
    (hxy : Agree related x y) (hx : x = .ok a) : ∃ b, y = .ok b ∧ related a b := by
  subst hx
  cases y with
  | error e => exact hxy.elim
  | ok b => exact ⟨b, rfl, hxy⟩

theorem Agree.bind_left {related : γ → δ → Prop} {x : Except ε α} {f : α → Except ε γ}
    {g : α → Except ε δ} (hfg : ∀ a, x = .ok a → Agree related (f a) (g a)) :
    Agree related (x >>= f) (x >>= g) := by
  cases x with
  | error e => trivial
  | ok a => exact hfg a rfl

@[simp] theorem mapM_nil (f : α → Except ε β) : [].mapM f = .ok [] := rfl

theorem mapM_cons_eq_ok {f : α → Except ε β} {a : α} {rest : List α} {bs : List β} :
    (a :: rest).mapM f = .ok bs ↔
      ∃ b bs', f a = .ok b ∧ rest.mapM f = .ok bs' ∧ bs = b :: bs' := by
  rw [List.mapM_cons]
  simp only [bind_eq_ok]
  constructor
  · rintro ⟨b, hb, bs', hbs, heq⟩
    exact ⟨b, bs', hb, hbs, (Except.ok.inj heq).symm⟩
  · rintro ⟨b, bs', hb, hbs, rfl⟩
    exact ⟨b, hb, bs', hbs, rfl⟩

theorem mapM_map_ok {f : β → Except ε γ} {g : α → β} {r : α → γ} {as : List α}
    (h : ∀ a ∈ as, f (g a) = .ok (r a)) : (as.map g).mapM f = .ok (as.map r) := by
  induction as with
  | nil => rfl
  | cons a rest ih =>
      have hrest := ih fun b hb => h b (List.mem_cons_of_mem _ hb)
      exact mapM_cons_eq_ok.mpr ⟨r a, rest.map r, h a List.mem_cons_self, hrest, rfl⟩

theorem mapM_eq_ok {f : α → Except ε β} {as : List α} {bs : List β} :
    as.mapM f = .ok bs ↔ List.Forall₂ (fun a b => f a = .ok b) as bs := by
  induction as generalizing bs with
  | nil =>
      rw [mapM_nil, List.forall₂_nil_left_iff]
      exact ⟨fun h => (Except.ok.inj h).symm, fun h => h ▸ rfl⟩
  | cons a rest ih =>
      rw [mapM_cons_eq_ok, List.forall₂_cons_left_iff]
      simp only [ih]

theorem mapM_append_ok {f : α → Except ε β} {xs ys : List α} {bs cs : List β}
    (hxs : xs.mapM f = .ok bs) (hys : ys.mapM f = .ok cs) :
    (xs ++ ys).mapM f = .ok (bs ++ cs) :=
  mapM_eq_ok.mpr (List.rel_append (mapM_eq_ok.mp hxs) (mapM_eq_ok.mp hys))

theorem mapM_isOk {f : α → Except ε β} {as : List α} (h : ∀ a ∈ as, (f a).isOk) :
    ∃ bs, as.mapM f = .ok bs := by
  induction as with
  | nil => exact ⟨[], rfl⟩
  | cons a rest ih =>
      obtain ⟨hfirst, hrest⟩ := List.forall_mem_cons.mp h
      obtain ⟨b, hb⟩ := exists_ok hfirst
      obtain ⟨bs, hbs⟩ := ih hrest
      exact ⟨b :: bs, mapM_cons_eq_ok.mpr ⟨b, bs, hb, hbs, rfl⟩⟩

theorem mapM_mem {f : α → Except ε β} {as : List α} {bs : List β} (h : as.mapM f = .ok bs) :
    ∀ b ∈ bs, ∃ a ∈ as, f a = .ok b := by
  have hforall := mapM_eq_ok.mp h
  clear h
  induction hforall with
  | nil => simp
  | @cons a b rest bs hfirst _ ih =>
      intro found hmem
      rcases List.mem_cons.mp hmem with rfl | hmem
      · exact ⟨a, List.mem_cons_self, hfirst⟩
      · obtain ⟨a', ha', hfound⟩ := ih found hmem
        exact ⟨a', List.mem_cons_of_mem _ ha', hfound⟩

theorem foldlM_view (view : β → γ) (step : γ → α → γ) {f : β → α → Except ε β}
    (hstep : ∀ acc a acc', f acc a = .ok acc' → view acc' = step (view acc) a)
    {as : List α} {start result : β} (h : as.foldlM f start = .ok result) :
    view result = as.foldl step (view start) := by
  induction as generalizing start with
  | nil =>
      cases h
      rfl
  | cons a rest ih =>
      rw [List.foldlM_cons, bind_eq_ok] at h
      obtain ⟨next, hnext, hrest⟩ := h
      rw [List.foldl_cons, ← hstep start a next hnext]
      exact ih hrest

theorem foldlM_invariant (inv : β → Prop) {f : β → α → Except ε β}
    (hstep : ∀ acc a acc', inv acc → f acc a = .ok acc' → inv acc') {as : List α}
    {start result : β} (hstart : inv start) (h : as.foldlM f start = .ok result) : inv result := by
  induction as generalizing start with
  | nil =>
      cases h
      exact hstart
  | cons a rest ih =>
      rw [List.foldlM_cons, bind_eq_ok] at h
      obtain ⟨next, hnext, hrest⟩ := h
      exact ih (hstep start a next hstart hnext) hrest

theorem Agree.foldlM {related : β → β → Prop} {related' : α → α → Prop}
    {f g : β → α → Except ε β}
    (hstep : ∀ acc acc' a a', related acc acc' → related' a a' → Agree related (f acc a) (g acc' a'))
    {as as' : List α} (has : List.Forall₂ related' as as') {start start' : β}
    (hstart : related start start') : Agree related (as.foldlM f start) (as'.foldlM g start') := by
  induction has generalizing start start' with
  | nil => exact hstart
  | cons ha _ ih =>
      rw [List.foldlM_cons, List.foldlM_cons]
      exact Agree.bind (hstep _ _ _ _ hstart ha) fun acc acc' _ _ hacc => ih hacc

/-! Computations that do not end in an error of some kind. -/

def Avoids (bad : ε → Prop) (x : Except ε α) : Prop := ∀ e, x = .error e → ¬bad e

variable {bad : ε → Prop}

@[simp] theorem avoids_ok (a : α) : Avoids bad (.ok a : Except ε α) := by
  intro e h
  cases h

@[simp] theorem avoids_error (e : ε) : Avoids bad (.error e : Except ε α) ↔ ¬bad e := by
  constructor
  · intro h
    exact h e rfl
  · intro h e' heq
    cases heq
    exact h

theorem Avoids.of_error {e : ε} (h : Avoids bad (.error e : Except ε α)) :
    Avoids bad (.error e : Except ε β) :=
  (avoids_error e).mpr ((avoids_error e).mp h)

theorem avoids_bind_iff {x : Except ε α} {f : α → Except ε β} :
    Avoids bad (x >>= f) ↔ Avoids bad x ∧ ∀ a, x = .ok a → Avoids bad (f a) := by
  cases x with
  | error e =>
      simp only [avoids_error, reduceCtorEq, false_implies, implies_true, and_true]
      exact avoids_error e
  | ok a => simp [bind, Except.bind]

theorem Avoids.bind {x : Except ε α} {f : α → Except ε β} (hx : Avoids bad x)
    (hf : ∀ a, x = .ok a → Avoids bad (f a)) : Avoids bad (x >>= f) :=
  avoids_bind_iff.mpr ⟨hx, hf⟩

theorem Avoids.bind_pure {x : Except ε α} (hx : Avoids bad x) (g : α → β) :
    Avoids bad (x >>= fun a => pure (g a)) :=
  hx.bind fun a _ => avoids_ok (g a)

theorem avoids_mapError {bad : δ → Prop} {wrap : ε → δ} (h : ∀ e, ¬bad (wrap e))
    (x : Except ε α) : Avoids bad (x.mapError wrap) := by
  cases x with
  | error e => exact (avoids_error _).mpr (h e)
  | ok a => exact avoids_ok a

theorem avoids_mapM {f : α → Except ε β} {as : List α} (h : ∀ a ∈ as, Avoids bad (f a)) :
    Avoids bad (as.mapM f) := by
  induction as with
  | nil => exact avoids_ok []
  | cons a rest ih =>
      have hrest := ih fun b hb => h b (List.mem_cons_of_mem _ hb)
      rw [List.mapM_cons]
      apply (h a List.mem_cons_self).bind
      intro b _
      exact hrest.bind_pure _

theorem avoids_mapM_iff {f : α → Except ε β} (hbad : ∀ a e, f a = .error e → bad e)
    {as : List α} : Avoids bad (as.mapM f) ↔ ∀ a ∈ as, (f a).isOk := by
  induction as with
  | nil => exact iff_of_true (avoids_ok []) (by simp)
  | cons a rest ih =>
      rw [List.mapM_cons, avoids_bind_iff, List.forall_mem_cons, ← ih]
      cases hfirst : f a with
      | error e =>
          have he := hbad a e hfirst
          simp [he, Except.isOk, Except.toBool]
      | ok b =>
          simp only [avoids_ok, Except.ok.injEq, forall_eq', true_and, avoids_bind_iff]
          simp [Except.isOk, Except.toBool, pure, Except.pure]

theorem avoids_foldlM {f : β → α → Except ε β} {as : List α}
    (h : ∀ acc, ∀ a ∈ as, Avoids bad (f acc a)) (start : β) : Avoids bad (as.foldlM f start) := by
  induction as generalizing start with
  | nil => exact avoids_ok start
  | cons a rest ih =>
      rw [List.foldlM_cons]
      apply (h start a List.mem_cons_self).bind
      intro next _
      exact ih (fun acc b hb => h acc b (List.mem_cons_of_mem _ hb)) next

end WorldChain.Library.Fallible
