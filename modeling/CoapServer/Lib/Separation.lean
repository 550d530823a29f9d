import CoapServer.Lib.Memory
import Mathlib.Algebra.BigOperators.Group.List.Basic

/-! # Separation logic

An assertion speaks of a part of the heap. `P * Q` is true of a part that splits into one for `P` and
one for `Q`, and `1` of the empty part: assertions are a commutative monoid, and `List.prod` is the
iterated product. A triple `Triple P m Q` says that `m` returns where `P` holds of a part of the heap,
that `Q` then holds of this part, and that the rest of the heap is as it was; so a triple holds beside
any frame (`Triple.frame`). The rules are for the calls on a heap (`new`, `read`, `write`, `delete`)
and for programs made of them. Where all of the heap is `1`, nothing is left on it. -/

namespace CoapServer.Lib.Separation

open CoapServer.Lib.Memory

/-! ### Parts of a heap -/

section Cells
variable {α : Type*}

/-- No address is in both parts. -/
def Apart (c d : ℕ → Option α) : Prop := ∀ a, c a = none ∨ d a = none

/-- Both parts. -/
def join (c d : ℕ → Option α) : ℕ → Option α := fun a => (c a).or (d a)

variable {c d e : ℕ → Option α}

theorem Apart.symm (h : Apart c d) : Apart d c := fun a => (h a).symm

theorem join_comm (h : Apart c d) : join c d = join d c := by
  funext a
  rcases h a with ha | ha
  · simp [join, ha]
  · simp [join, ha]

theorem join_assoc (c d e : ℕ → Option α) : join (join c d) e = join c (join d e) :=
  funext fun _ => Option.or_assoc

theorem apart_join_left : Apart (join c d) e ↔ Apart c e ∧ Apart d e := by
  constructor
  · intro h
    refine ⟨fun a => ?_, fun a => ?_⟩
    · rcases h a with ha | ha
      · exact Or.inl (Option.or_eq_none_iff.mp ha).1
      · exact Or.inr ha
    · rcases h a with ha | ha
      · exact Or.inl (Option.or_eq_none_iff.mp ha).2
      · exact Or.inr ha
  · rintro ⟨hc, hd⟩ a
    rcases hc a with ha | ha
    · exact (hd a).imp_left fun hda => Option.or_eq_none_iff.mpr ⟨ha, hda⟩
    · exact Or.inr ha

theorem apart_join_right : Apart c (join d e) ↔ Apart c d ∧ Apart c e := by
  constructor
  · intro h
    obtain ⟨hd, he⟩ := apart_join_left.mp h.symm
    exact ⟨hd.symm, he.symm⟩
  · rintro ⟨hd, he⟩
    exact (apart_join_left.mpr ⟨hd.symm, he.symm⟩).symm

end Cells

/-! ### Assertions -/

/-- **An assertion** about a part of a heap. -/
def Assertion (α : Type*) := (ℕ → Option α) → Prop

section Assertion
variable {α γ : Type*}

theorem Assertion.ext {P Q : Assertion α} (h : ∀ c, P c ↔ Q c) : P = Q :=
  funext fun c => propext (h c)

instance : One (Assertion α) := ⟨fun c => c = fun _ => none⟩

instance : Mul (Assertion α) := ⟨fun P Q c => ∃ d e, Apart d e ∧ c = join d e ∧ P d ∧ Q e⟩

theorem one_iff {c : ℕ → Option α} : (1 : Assertion α) c ↔ c = fun _ => none := Iff.rfl

protected theorem mul_comm' (P Q : Assertion α) : P * Q = Q * P := by
  have hswap : ∀ (P Q : Assertion α) c, (P * Q) c → (Q * P) c := by
    rintro P Q _ ⟨d, e, hde, rfl, hP, hQ⟩
    exact ⟨e, d, hde.symm, join_comm hde, hQ, hP⟩
  exact Assertion.ext fun c => ⟨hswap P Q c, hswap Q P c⟩

protected theorem one_mul' (P : Assertion α) : 1 * P = P := by
  refine Assertion.ext fun c => ⟨?_, fun hP => ?_⟩
  · rintro ⟨d, e, -, rfl, hd, hP⟩
    rw [one_iff.mp hd]
    exact hP
  · exact ⟨fun _ => none, c, fun _ => Or.inl rfl, rfl, rfl, hP⟩

protected theorem mul_assoc' (P Q R : Assertion α) : P * Q * R = P * (Q * R) := by
  refine Assertion.ext fun c => ⟨?_, ?_⟩
  · rintro ⟨_, f, hf, rfl, ⟨d, e, hde, rfl, hP, hQ⟩, hR⟩
    obtain ⟨hdf, hef⟩ := apart_join_left.mp hf
    exact ⟨d, join e f, apart_join_right.mpr ⟨hde, hdf⟩, join_assoc d e f, hP,
      ⟨e, f, hef, rfl, hQ, hR⟩⟩
  · rintro ⟨d, _, hd, rfl, hP, ⟨e, f, hef, rfl, hQ, hR⟩⟩
    obtain ⟨hde, hdf⟩ := apart_join_right.mp hd
    exact ⟨join d e, f, apart_join_left.mpr ⟨hdf, hef⟩, (join_assoc d e f).symm,
      ⟨d, e, hde, rfl, hP, hQ⟩, hR⟩

instance : CommMonoid (Assertion α) where
  mul_assoc := Separation.mul_assoc'
  one_mul := Separation.one_mul'
  mul_one P := (Separation.mul_comm' P 1).trans (Separation.one_mul' P)
  mul_comm := Separation.mul_comm'

/-- The part is the one cell `a`, with `x`. -/
def pointsTo (a : ℕ) (x : α) : Assertion α :=
  fun c => c = Function.update (fun _ => none) a (some x)

/-- What is true without a heap. -/
def fact (p : Prop) : Assertion α := fun c => p ∧ (1 : Assertion α) c

/-- For some value. -/
def ex (P : γ → Assertion α) : Assertion α := fun c => ∃ g, P g c

variable {P Q R : Assertion α} {c : ℕ → Option α}

theorem fact_mul {p : Prop} : (fact p * P : Assertion α) c ↔ p ∧ P c := by
  constructor
  · rintro ⟨d, e, -, rfl, ⟨hp, hd⟩, hP⟩
    rw [one_iff.mp hd]
    exact ⟨hp, hP⟩
  · rintro ⟨hp, hP⟩
    exact ⟨fun _ => none, c, fun _ => Or.inl rfl, rfl, ⟨hp, rfl⟩, hP⟩

theorem ex_intro {P : γ → Assertion α} (g : γ) (h : P g c) : ex P c := ⟨g, h⟩

theorem ex_mul (P : γ → Assertion α) (R : Assertion α) : ex P * R = ex fun g => P g * R := by
  refine Assertion.ext fun c => ⟨?_, ?_⟩
  · rintro ⟨d, e, hde, rfl, ⟨g, hP⟩, hR⟩
    exact ⟨g, d, e, hde, rfl, hP, hR⟩
  · rintro ⟨g, d, e, hde, rfl, hP, hR⟩
    exact ⟨d, e, hde, rfl, ⟨g, hP⟩, hR⟩

/-- A cell that is there. -/
theorem pointsTo_mul {a : ℕ} {x : α} (h : (pointsTo a x * P) c) : c a = some x := by
  obtain ⟨d, e, -, rfl, hd, -⟩ := h
  rw [show d = Function.update (fun _ => none) a (some x) from hd, join, Function.update_self]
  rfl

/-- **The cell `a` is there**, with `x`, beside whatever else. -/
def Includes (P : Assertion α) (a : ℕ) (x : α) : Prop := ∃ R, P = pointsTo a x * R

theorem includes_pointsTo (a : ℕ) (x : α) : Includes (pointsTo a x) a x := ⟨1, (mul_one _).symm⟩

theorem Includes.mul_right {a : ℕ} {x : α} (h : Includes P a x) (R : Assertion α) :
    Includes (P * R) a x := by
  obtain ⟨S, rfl⟩ := h
  exact ⟨S * R, mul_assoc _ _ _⟩

theorem Includes.mul_left {a : ℕ} {x : α} (h : Includes P a x) (R : Assertion α) :
    Includes (R * P) a x := by
  rw [mul_comm]
  exact h.mul_right R

/-- A cell of a factor. -/
theorem Includes.prod {P : γ → Assertion α} {gs : List γ} {g : γ} (hg : g ∈ gs) {a : ℕ} {x : α}
    (h : Includes (P g) a x) : Includes (gs.map P).prod a x := by
  obtain ⟨pre, post, rfl⟩ := List.append_of_mem hg
  rw [List.map_append, List.prod_append, List.map_cons, List.prod_cons]
  exact (h.mul_right _).mul_left _

theorem Includes.cells {a : ℕ} {x : α} (h : Includes P a x) (hP : P c) : c a = some x := by
  obtain ⟨R, rfl⟩ := h
  exact pointsTo_mul hP

/-- Every cell of `P` is one of `Q`. -/
def Within (P Q : Assertion α) : Prop := ∀ a x, Includes P a x → Includes Q a x

theorem Includes.within {a : ℕ} {x : α} (h : Includes P a x) (hPQ : Within P Q) :
    Includes Q a x :=
  hPQ a x h

theorem within_mul (P R : Assertion α) : Within P (P * R) := fun _ _ h => h.mul_right R

theorem within_prod {P : γ → Assertion α} {gs : List γ} {g : γ} (hg : g ∈ gs) :
    Within (P g) (gs.map P).prod := fun _ _ h => Includes.prod hg h

theorem Within.trans (h : Within P Q) (h' : Within Q R) : Within P R :=
  fun a x hx => h' a x (h a x hx)

/-- **A cell changes**, beside what stays. -/
theorem pointsTo_update {a : ℕ} {x : α} (y : α) (h : (pointsTo a x * P) c) :
    (pointsTo a y * P) (Function.update c a (some y)) := by
  obtain ⟨d, e, hde, rfl, hd, hP⟩ := h
  have hd : d = Function.update (fun _ => none) a (some x) := hd
  have ha : e a = none := by
    rcases hde a with h | h
    · rw [hd, Function.update_self] at h
      cases h
    · exact h
  refine ⟨Function.update (fun _ => none) a (some y), e, fun b => ?_, ?_, rfl, hP⟩
  · by_cases hb : b = a
    · exact Or.inr (hb ▸ ha)
    · exact Or.inl (Function.update_of_ne hb _ _)
  · funext b
    by_cases hb : b = a
    · subst hb
      simp [join]
    · simp [join, hd, Function.update_of_ne hb]

/-- **A cell is added** beside what is there. -/
theorem pointsTo_add {a : ℕ} (x : α) (ha : c a = none) (h : P c) :
    (pointsTo a x * P) (Function.update c a (some x)) := by
  refine ⟨Function.update (fun _ => none) a (some x), c, fun b => ?_, ?_, rfl, h⟩
  · by_cases hb : b = a
    · exact Or.inr (hb ▸ ha)
    · exact Or.inl (Function.update_of_ne hb _ _)
  · funext b
    by_cases hb : b = a
    · subst hb
      simp [join]
    · simp [join, Function.update_of_ne hb]

/-- **A cell is removed**, and the rest stays. -/
theorem pointsTo_remove {a : ℕ} {x : α} (h : (pointsTo a x * P) c) :
    P (Function.update c a none) := by
  obtain ⟨d, e, hde, rfl, hd, hP⟩ := h
  have hd : d = Function.update (fun _ => none) a (some x) := hd
  have ha : e a = none := by
    rcases hde a with h | h
    · rw [hd, Function.update_self] at h
      cases h
    · exact h
  have he : Function.update (join d e) a none = e := by
    funext b
    by_cases hb : b = a
    · subst hb
      rw [Function.update_self, ha]
    · simp [join, hd, Function.update_of_ne hb]
  rwa [he]

end Assertion

/-! ### Triples -/

variable {α β γ ε : Type}

/-- A program on a heap. Besides faults it has errors of its own. -/
abbrev HeapM (ε α : Type) := EStateM (Fault ⊕ ε) (Heap α)

/-- `P` holds of all of the heap, and what comes next is not in it. -/
def Holds (P : Assertion α) (h : Heap α) : Prop :=
  P h.cells ∧ ∀ a, (h.cells a).isSome → a < h.fresh

/-- **`m` takes `P` to `Q`**, without a fault, whatever else is on the heap. -/
def Triple (P : Assertion α) (m : HeapM ε α β) (Q : β → Assertion α) : Prop :=
  ∀ (F : Assertion α) (h : Heap α), Holds (P * F) h →
    ∃ b h', m.run h = .ok b h' ∧ Holds (Q b * F) h'

variable {P P' R : Assertion α} {Q Q' : β → Assertion α} {m : HeapM ε α β}

/-- A program that ends here. -/
theorem Triple.return (b : β) (h : ∀ c, P c → Q b c) : Triple P (Pure.pure b : HeapM ε α β) Q := by
  rintro F h' ⟨⟨d, e, hde, hc, hd, he⟩, hfresh⟩
  exact ⟨b, h', rfl, ⟨d, e, hde, hc, h d hd, he⟩, hfresh⟩

theorem Triple.bind {k : β → HeapM ε α γ} {S : γ → Assertion α} (hm : Triple P m Q)
    (hk : ∀ b, Triple (Q b) (k b) S) : Triple P (m >>= k) S := by
  intro F h hP
  obtain ⟨b, h₁, hrun, hQ⟩ := hm F h hP
  obtain ⟨c, h₂, hrun₂, hS⟩ := hk b F h₁ hQ
  refine ⟨c, h₂, ?_, hS⟩
  rw [EStateM.run_bind, hrun]
  exact hrun₂

/-- **The frame rule.** -/
theorem Triple.frame (hm : Triple P m Q) (R : Assertion α) :
    Triple (P * R) m fun b => Q b * R := by
  intro F h hP
  rw [mul_assoc] at hP
  obtain ⟨b, h', hrun, hQ⟩ := hm (R * F) h hP
  exact ⟨b, h', hrun, by rwa [mul_assoc]⟩

/-- The assertions are rewritten. -/
theorem Triple.of_eq (hm : Triple P' m Q') (hP : P = P') (hQ : ∀ b, Q' b = Q b) :
    Triple P m Q := by
  subst hP
  obtain rfl := funext hQ
  exact hm

/-- A frame, with the assertions rewritten. -/
theorem Triple.framed (hm : Triple P' m Q') (R : Assertion α) (hP : P = P' * R)
    (hQ : ∀ b, Q' b * R = Q b) : Triple P m Q :=
  (hm.frame R).of_eq hP hQ

theorem Triple.of_fact {p : Prop} (hm : p → Triple P m Q) : Triple (fact p * P) m Q := by
  intro F h hP
  rw [Holds, mul_assoc, fact_mul] at hP
  exact hm hP.1.1 F h ⟨hP.1.2, hP.2⟩

theorem Triple.of_ex {P : γ → Assertion α} (hm : ∀ g, Triple (P g) m Q) : Triple (ex P) m Q := by
  intro F h hP
  rw [Holds, ex_mul] at hP
  obtain ⟨⟨g, hg⟩, hfresh⟩ := hP
  exact hm g F h ⟨hg, hfresh⟩

/-- The post-condition is weakened. -/
theorem Triple.post (hm : Triple P m Q') (hQ : ∀ b c, Q' b c → Q b c) : Triple P m Q := by
  intro F h hP
  obtain ⟨b, h', hrun, ⟨d, e, hde, hc, hd, he⟩, hfresh⟩ := hm F h hP
  exact ⟨b, h', hrun, ⟨d, e, hde, hc, hQ b d hd, he⟩, hfresh⟩

theorem Triple.of_fact_mul {p : Prop} (hm : p → Triple (P * R) m Q) :
    Triple (fact p * P * R) m Q := by
  rw [mul_assoc]
  exact Triple.of_fact hm

theorem Triple.of_ex_mul {P : γ → Assertion α} (hm : ∀ g, Triple (P g * R) m Q) :
    Triple (ex P * R) m Q := by
  rw [ex_mul]
  exact Triple.of_ex hm

/-- **All of the heap**: where `m` starts with `P` it ends with `Q`. -/
theorem Triple.run (hm : Triple P m Q) {h : Heap α} (hP : Holds P h) :
    ∃ b h', m.run h = .ok b h' ∧ Holds (Q b) h' := by
  obtain ⟨b, h', hrun, hQ⟩ := hm 1 h (by rwa [mul_one])
  exact ⟨b, h', hrun, by rwa [mul_one] at hQ⟩

/-- **`m` returns `b`**, and `P` stays. -/
def Returns (P : Assertion α) (m : HeapM ε α β) (b : β) : Prop :=
  Triple P m fun b' => fact (b' = b) * P

theorem Returns.pure (b : β) : Returns P (Pure.pure b : HeapM ε α β) b :=
  Triple.return b fun _ hc => fact_mul.mpr ⟨rfl, hc⟩

theorem Returns.bind {b : β} {k : β → HeapM ε α γ} {S : γ → Assertion α} (hm : Returns P m b)
    (hk : Triple P (k b) S) : Triple P (m >>= k) S := by
  refine Triple.bind hm fun b' => Triple.of_fact ?_
  rintro rfl
  exact hk

theorem Returns.run {b : β} (hm : Returns P m b) {h : Heap α} (hP : Holds P h) :
    ∃ h', m.run h = .ok b h' ∧ Holds P h' := by
  obtain ⟨b', h', hrun, hQ, hfresh⟩ := Triple.run hm hP
  obtain ⟨rfl, hcells⟩ := fact_mul.mp hQ
  exact ⟨h', hrun, hcells, hfresh⟩

/-- A loop that leaves all as it is. -/
theorem Returns.forM {f : γ → HeapM ε α Unit} {gs : List γ}
    (hf : ∀ g ∈ gs, Returns P (f g) ⟨⟩) : Returns P (gs.forM f) ⟨⟩ := by
  induction gs with
  | nil => exact Returns.pure ()
  | cons g gs ih =>
    exact Returns.bind (hf g List.mem_cons_self)
      (ih fun g' hg' => hf g' (List.mem_cons_of_mem g hg'))

/-! ### The calls -/

/-- `new`. -/
def new (x : α) : HeapM ε α ℕ := do
  let h ← get
  set (h.new x)
  return h.fresh

/-- What a call on the heap answers. -/
def lift (r : Except Fault β) : HeapM ε α β :=
  match r with
  | .ok b => return b
  | .error e => throw (.inl e)

/-- An access to an object as one of a kind. -/
def readAs (kind : α → Option β) (a : ℕ) : HeapM ε α β := do
  match kind (← lift ((← get).read a)) with
  | some b => return b
  | none => throw (.inl (.dangling a))

def write (a : ℕ) (x : α) : HeapM ε α Unit := do set (← lift ((← get).write a x))

/-- `delete`. -/
def delete (a : ℕ) : HeapM ε α Unit := do set (← lift ((← get).delete a))

theorem Triple.new (x : α) : Triple 1 (Separation.new x : HeapM ε α ℕ) fun a => pointsTo a x := by
  rintro F h ⟨hF, hfresh⟩
  rw [one_mul] at hF
  have hnone : h.cells h.fresh = none := by
    rw [← Option.not_isSome_iff_eq_none]
    exact fun hsome => Nat.lt_irrefl _ (hfresh _ hsome)
  refine ⟨h.fresh, h.new x, rfl, pointsTo_add x hnone hF, fun a ha => ?_⟩
  by_cases hfr : a = h.fresh
  · exact hfr ▸ Nat.lt_succ_self _
  · simp only [Heap.new, Function.update_of_ne hfr] at ha
    exact Nat.lt_succ_of_lt (hfresh a ha)

/-- **Reading** leaves all as it is. -/
theorem returns_readAs {kind : α → Option β} {a : ℕ} {x : α} {b : β} (hP : Includes P a x)
    (hb : kind x = some b) : Returns P (readAs kind a : HeapM ε α β) b := by
  intro F h hF
  have hcell : h.cells a = some x := (hP.mul_right F).cells hF.1
  have hread : (readAs kind a : HeapM ε α β).run h = .ok b h := by
    simp only [readAs, EStateM.run_bind, EStateM.run_get, Heap.read, hcell, lift, EStateM.run_pure,
      hb]
  refine ⟨b, h, hread, ?_, hF.2⟩
  rw [mul_assoc]
  exact fact_mul.mpr ⟨rfl, hF.1⟩

theorem Triple.write {a : ℕ} {x : α} (y : α) :
    Triple (pointsTo a x) (Separation.write a y : HeapM ε α Unit) fun _ => pointsTo a y := by
  rintro F h ⟨hF, hfresh⟩
  have hcell := pointsTo_mul hF
  have hrun : (Separation.write a y : HeapM ε α Unit).run h = .ok ⟨⟩ (h.put a y) := by
    simp only [Separation.write, EStateM.run_bind, EStateM.run_get, Heap.write, hcell,
      Option.isSome_some, if_true, lift, EStateM.run_pure, EStateM.run_set]
  refine ⟨⟨⟩, h.put a y, hrun, pointsTo_update y hF, fun b hb => ?_⟩
  by_cases hba : b = a
  · exact hba ▸ hfresh a (by rw [hcell]; rfl)
  · simp only [Heap.put, Function.update_of_ne hba] at hb
    exact hfresh b hb

theorem Triple.delete {a : ℕ} {x : α} :
    Triple (pointsTo a x) (Separation.delete a : HeapM ε α Unit) fun _ => 1 := by
  rintro F h ⟨hF, hfresh⟩
  have hrun : (Separation.delete a : HeapM ε α Unit).run h = .ok ⟨⟩ (h.drop a) := by
    simp only [Separation.delete, EStateM.run_bind, EStateM.run_get, Heap.delete, pointsTo_mul hF,
      Option.isSome_some, if_true, lift, EStateM.run_pure, EStateM.run_set]
  refine ⟨⟨⟩, h.drop a, hrun, ?_, fun b hb => ?_⟩
  · rw [one_mul]
    exact pointsTo_remove hF
  · by_cases hba : b = a
    · simp [hba, Heap.drop] at hb
    · simp only [Heap.drop, Function.update_of_ne hba] at hb
      exact hfresh b hb

/-! ### Loops -/

/-- **A loop over pointers**, each with its own part. -/
theorem Triple.forM {δ : Type} {ptr : γ → δ} {f : δ → HeapM ε α Unit} {P Q : γ → Assertion α}
    {gs : List γ} (hf : ∀ g ∈ gs, Triple (P g) (f (ptr g)) fun _ => Q g) :
    Triple (gs.map P).prod ((gs.map ptr).forM f) fun _ => (gs.map Q).prod := by
  induction gs with
  | nil => exact fun _ h hP => ⟨⟨⟩, h, rfl, hP⟩
  | cons g gs ih =>
    have hg := (hf g List.mem_cons_self).frame (gs.map P).prod
    have hgs := ih fun g' hg' => hf g' (List.mem_cons_of_mem g hg')
    rw [List.map_cons, List.map_cons, List.map_cons, List.prod_cons, List.prod_cons]
    exact Triple.bind hg fun _ => hgs.framed (Q g) (mul_comm _ _) fun _ => mul_comm _ _

/-- A loop that leaves nothing. -/
theorem Triple.forM_one {δ : Type} {ptr : γ → δ} {f : δ → HeapM ε α Unit} {P : γ → Assertion α}
    {gs : List γ} (hf : ∀ g ∈ gs, Triple (P g) (f (ptr g)) fun _ => 1) :
    Triple (gs.map P).prod ((gs.map ptr).forM f) fun _ => 1 := by
  refine (Triple.forM hf).of_eq rfl fun _ => ?_
  rw [List.map_const', List.prod_replicate, one_pow]

end CoapServer.Lib.Separation
