import Mathlib.Data.List.Chain

/-!
# Rings of linked elements

Elements that carry their own links, in doubly linked rings with a pointer to the first element and a count
for each ring.
-/

open Function (update)

structure LinkedRings (ι α : Type) where
  next : α → α
  prev : α → α
  first : ι → Option α
  num : ι → Nat

namespace LinkedRings

open List Function LinkedRings

variable {ι α : Type}

def members (r : LinkedRings ι α) : Nat → Option α → List α
  | 0, _ => []
  | _ + 1, none => []
  | n + 1, some x => x :: r.members n (some (r.next x))

/-! ## One ring -/

def Link (r : LinkedRings ι α) (a b : α) : Prop := r.next a = b ∧ r.prev b = a

structure Ring (r : LinkedRings ι α) (l : List α) : Prop where
  chain : l.IsChain r.Link
  close : ∀ a ∈ l.getLast?, ∀ b ∈ l.head?, r.Link a b

variable {r r' : LinkedRings ι α} {l l₁ l₂ : List α} {i : ι} {x : α}

theorem Ring.rotate (h : r.Ring (l₁ ++ l₂)) : r.Ring (l₂ ++ l₁) := by
  obtain ⟨hchain, hclose⟩ := h
  obtain ⟨h₁, h₂, h₁₂⟩ := isChain_append.1 hchain
  cases l₁ with
  | nil => simpa using Ring.mk h₂ (by simpa using hclose)
  | cons a l₁ =>
    cases l₂ with
    | nil => simpa using Ring.mk h₁ (by simpa using hclose)
    | cons b l₂ =>
      rw [getLast?_append_of_ne_nil _ (cons_ne_nil b l₂)] at hclose
      refine ⟨isChain_append.2 ⟨h₂, h₁, hclose⟩, ?_⟩
      rw [getLast?_append_of_ne_nil _ (cons_ne_nil a l₁)]
      exact h₁₂

theorem Ring.congr (h : r.Ring l) (hnext : ∀ a ∈ l, r'.next a = r.next a)
    (hprev : ∀ a ∈ l, r'.prev a = r.prev a) : r'.Ring l := by
  refine ⟨h.chain.imp_of_mem_imp fun a b ha hb hab => ?_, fun a ha b hb => ?_⟩
  · exact ⟨(hnext a ha).trans hab.1, (hprev b hb).trans hab.2⟩
  · obtain ⟨hab, hba⟩ := h.close a ha b hb
    exact ⟨(hnext a (mem_of_getLast? ha)).trans hab, (hprev b (mem_of_head? hb)).trans hba⟩

theorem ring_cons_cons {y : α} : r.Ring (x :: y :: l) ↔
    r.Link x y ∧ (y :: l).IsChain r.Link ∧ r.Link ((y :: l).getLast (cons_ne_nil _ _)) x := by
  constructor
  · rintro ⟨hchain, hclose⟩
    obtain ⟨hxy, hchain⟩ := isChain_cons_cons.1 hchain
    exact ⟨hxy, hchain, hclose _ (by simp [getLast?_eq_some_getLast]) x rfl⟩
  · rintro ⟨hxy, hchain, hclose⟩
    refine ⟨isChain_cons_cons.2 ⟨hxy, hchain⟩, ?_⟩
    simpa [getLast?_eq_some_getLast] using hclose

theorem Ring.mem (h : r.Ring l) (hx : x ∈ l) : r.next x ∈ l ∧ r.prev x ∈ l := by
  obtain ⟨l₁, l₂, rfl⟩ := append_of_mem hx
  have hrot := h.rotate
  suffices hmem : r.next x ∈ x :: l₂ ++ l₁ ∧ r.prev x ∈ x :: l₂ ++ l₁ by
    simp only [mem_append] at hmem ⊢
    exact ⟨hmem.1.symm, hmem.2.symm⟩
  rw [cons_append] at hrot ⊢
  cases hl : l₂ ++ l₁ with
  | nil =>
    rw [hl] at hrot
    obtain ⟨hnext, hprev⟩ := hrot.close x rfl x rfl
    simp [hnext, hprev]
  | cons y l =>
    rw [hl] at hrot
    obtain ⟨hxy, -, hclose⟩ := ring_cons_cons.1 hrot
    rw [hxy.1, hclose.2]
    exact ⟨by simp, mem_cons_of_mem _ (getLast_mem _)⟩

theorem members_of_chain (h : l.IsChain r.Link) : r.members l.length l.head? = l := by
  induction l with
  | nil => rfl
  | cons x l ih =>
    rw [length_cons, head?_cons, members]
    cases l with
    | nil => rfl
    | cons y l =>
      obtain ⟨hxy, hchain⟩ := isChain_cons_cons.1 h
      rw [hxy.1]
      exact congrArg _ (ih hchain)

/-! ## All rings -/

structure Rep (r : LinkedRings ι α) (lists : ι → List α) : Prop where
  ring : ∀ i, r.Ring (lists i)
  first : ∀ i, r.first i = (lists i).head?
  num : ∀ i, r.num i = (lists i).length
  nodup : ∀ i, (lists i).Nodup
  disjoint : ∀ i j, i ≠ j → (lists i).Disjoint (lists j)

variable {lists : ι → List α}

theorem rep_nil {next prev : α → α} :
    (⟨next, prev, fun _ => none, fun _ => 0⟩ : LinkedRings ι α).Rep fun _ => [] :=
  ⟨fun _ => ⟨.nil, by simp⟩, fun _ => rfl, fun _ => rfl, fun _ => .nil, by simp⟩

theorem Rep.members (h : r.Rep lists) : r.members (r.num i) (r.first i) = lists i := by
  rw [h.num, h.first]
  exact members_of_chain (h.ring i).chain

variable [DecidableEq ι]

theorem disjoint_update (hdisj : ∀ i j, i ≠ j → (lists i).Disjoint (lists j))
    (hl : ∀ j, j ≠ i → l.Disjoint (lists j)) (j k : ι) (hjk : j ≠ k) :
    (update lists i l j).Disjoint (update lists i l k) := by
  by_cases hj : j = i
  · subst hj
    rw [update_self, update_of_ne hjk.symm]
    exact hl k hjk.symm
  · by_cases hk : k = i
    · subst hk
      rw [update_self, update_of_ne hj]
      exact fun _ hj' hk' => hl j hj hk' hj'
    · rw [update_of_ne hj, update_of_ne hk]
      exact hdisj j k hjk

theorem Rep.change (h : r.Rep lists) (hring : r'.Ring l) (hnodup : l.Nodup)
    (hdisj : ∀ j, j ≠ i → l.Disjoint (lists j)) (hfirst : r'.first = update r.first i l.head?)
    (hnum : r'.num = update r.num i l.length)
    (hlinks : ∀ j, j ≠ i → ∀ a ∈ lists j, r'.next a = r.next a ∧ r'.prev a = r.prev a) :
    r'.Rep (update lists i l) := by
  refine ⟨fun j => ?_, fun j => ?_, fun j => ?_, fun j => ?_, disjoint_update h.disjoint hdisj⟩ <;>
    by_cases hj : j = i
  · subst hj
    rwa [update_self]
  · rw [update_of_ne hj]
    exact (h.ring j).congr (fun a ha => (hlinks j hj a ha).1) fun a ha => (hlinks j hj a ha).2
  · subst hj
    rw [hfirst, update_self, update_self]
  · rw [hfirst, update_of_ne hj, update_of_ne hj, h.first]
  · subst hj
    rw [hnum, update_self, update_self]
  · rw [hnum, update_of_ne hj, update_of_ne hj, h.num]
  · subst hj
    rwa [update_self]
  · rw [update_of_ne hj]
    exact h.nodup j

/-! ## Insertion and removal -/

variable [DecidableEq α]

section
variable (r : LinkedRings ι α)

def init (x : α) : LinkedRings ι α :=
  { r with next := update r.next x x, prev := update r.prev x x }

def insertHead (i : ι) (x : α) : LinkedRings ι α :=
  match r.first i with
  | none => { r with first := update r.first i (some x) }
  | some f =>
    { r with
      next := update (update r.next x f) (r.prev f) x
      prev := update (update r.prev x (r.prev f)) f x
      first := update r.first i (some x) }

def remove (i : ι) (x : α) : LinkedRings ι α :=
  match r.first i with
  | none => r
  | some f =>
    let first := if f = x then update r.first i (if r.next f = f then none else some (r.next x)) else r.first
    let prev := update r.prev (r.next x) (r.prev x)
    init { r with next := update r.next (prev x) (r.next x), prev := prev, first := first } x

def addEntry (i : ι) (x : α) : LinkedRings ι α :=
  { (r.init x).insertHead i x with num := update r.num i (r.num i + 1) }

def removeEntry (i : ι) (x : α) : LinkedRings ι α :=
  { r.remove i x with num := update r.num i (r.num i - 1) }

end

theorem Ring.insertHead (h : r.Ring l) (hfirst : r.first i = l.head?) (hl : l.Nodup) (hx : x ∉ l)
    (hinit : r.Link x x) : (r.insertHead i x).Ring (x :: l) := by
  cases l with
  | nil =>
    rw [insertHead, hfirst]
    exact ⟨isChain_singleton _, by simpa [Link] using hinit⟩
  | cons f l =>
    rw [insertHead, hfirst]
    have hf : f ∉ l := (nodup_cons.1 hl).1
    have hlast := h.close _ (getLast?_eq_some_getLast (cons_ne_nil f l)) f rfl
    have hmem := getLast_mem (cons_ne_nil f l)
    obtain ⟨p, hp⟩ : ∃ p, (f :: l).getLast (cons_ne_nil f l) = p := ⟨_, rfl⟩
    rw [hp] at hlast hmem
    have hxf : x ≠ f := fun e => hx (e ▸ mem_cons_self)
    have hxp : x ≠ p := fun e => hx (e ▸ hmem)
    rw [ring_cons_cons, hp]
    refine ⟨?_, h.chain.imp_of_mem_tail_imp fun a b ha hb hab => ?_, ?_⟩
    · simp [Link, hlast.2, hxp]
    · have hbf : b ≠ f := fun e => hf (e ▸ hb)
      have hax : a ≠ x := fun e => hx (e ▸ ha)
      have hbx : b ≠ x := fun e => hx (e ▸ mem_cons_of_mem _ hb)
      -- Only the last element leads to the first.
      have hap : a ≠ p := fun e => hbf (hab.1.symm.trans (e ▸ hlast.1))
      simp [Link, hlast.2, hap, hax, hbf, hbx, hab.1, hab.2]
    · simp [Link, hlast.2, hxf]

theorem Rep.addEntry (h : r.Rep lists) (i : ι) (hx : ∀ j, x ∉ lists j) :
    (r.addEntry i x).Rep (update lists i (x :: lists i)) := by
  have hinit : ∀ j, (r.init x).Ring (lists j) := fun j =>
    (h.ring j).congr (fun _ ha => update_of_ne (ne_of_mem_of_not_mem ha (hx j)) _ _)
      fun _ ha => update_of_ne (ne_of_mem_of_not_mem ha (hx j)) _ _
  have hlink : (r.init x).Link x x := ⟨update_self .., update_self ..⟩
  have hring := (hinit i).insertHead (h.first i) (h.nodup i) (hx i) hlink
  refine h.change (hring.congr (fun _ _ => rfl) fun _ _ => rfl) (nodup_cons.2 ⟨hx i, h.nodup i⟩)
    (fun j hj => disjoint_cons_left.2 ⟨hx j, h.disjoint i j hj.symm⟩) ?_ ?_ ?_
  · rw [LinkedRings.addEntry, insertHead, show (r.init x).first i = (lists i).head? from h.first i]
    cases (lists i).head? <;> rfl
  · rw [length_cons, ← h.num]
    rfl
  · intro j hj a ha
    have hax : a ≠ x := fun e => hx j (e ▸ ha)
    rw [LinkedRings.addEntry, insertHead]
    cases hf : (r.init x).first i with
    | none => simp [init, hax]
    | some f =>
      have hmem : f ∈ lists i := mem_of_head? ((h.first i).symm.trans hf)
      have hne : ∀ {b}, b ∈ lists i → a ≠ b := fun hb e => h.disjoint i j hj.symm (e ▸ hb) ha
      have hprev := hne ((hinit i).mem hmem).2
      simp only [init] at hprev ⊢
      simp [hax, hne hmem, hprev]

theorem Ring.remove_head (h : r.Ring (x :: l)) (hl : (x :: l).Nodup) (hfirst : r.first i ≠ none) :
    (r.remove i x).Ring l := by
  cases l with
  | nil => exact ⟨.nil, by simp⟩
  | cons n l =>
    obtain ⟨f, hf⟩ := Option.ne_none_iff_exists'.1 hfirst
    obtain ⟨hxn, hchain, hlast⟩ := ring_cons_cons.1 h
    have hmem := getLast_mem (cons_ne_nil n l)
    obtain ⟨p, hp⟩ : ∃ p, (n :: l).getLast (cons_ne_nil n l) = p := ⟨_, rfl⟩
    rw [hp] at hlast hmem
    obtain ⟨hx, hn⟩ := nodup_cons.1 hl
    have hne : ∀ {a}, a ∈ n :: l → a ≠ x := fun ha e => hx (e ▸ ha)
    have hnx : n ≠ x := hne mem_cons_self
    have hpx : p ≠ x := hne hmem
    rw [remove, hf]
    refine ⟨hchain.imp_of_mem_tail_imp fun a b ha hb hab => ?_, ?_⟩
    · have hbn : b ≠ n := fun e => (nodup_cons.1 hn).1 (e ▸ hb)
      have hax := hne ha
      have hbx := hne (mem_cons_of_mem n hb)
      have hap : a ≠ p := fun e => hbx (hab.1.symm.trans (e ▸ hlast.1))
      simp [Link, init, hxn.1, hlast.2, hnx.symm, hap, hax, hbn, hbx, hab.1, hab.2]
    · intro a ha b hb
      obtain rfl : p = a := by simpa [getLast?_eq_some_getLast, hp] using ha
      obtain rfl : n = b := by simpa using hb
      simp [Link, init, hxn.1, hlast.2, hnx.symm, hnx, hpx]

theorem Ring.remove (h : r.Ring l) (hl : l.Nodup) (hx : x ∈ l) (hfirst : r.first i ≠ none) :
    (r.remove i x).Ring (l.erase x) := by
  obtain ⟨l₁, l₂, rfl⟩ := append_of_mem hx
  have hx₁ : x ∉ l₁ := fun hmem => (nodup_append.1 hl).2.2 x hmem x mem_cons_self rfl
  rw [erase_append_right _ hx₁, erase_cons_head]
  exact (h.rotate.remove_head (perm_append_comm.nodup_iff.1 hl) hfirst).rotate

theorem Rep.removeEntry (h : r.Rep lists) (hx : x ∈ lists i) :
    (r.removeEntry i x).Rep (update lists i ((lists i).erase x)) := by
  obtain ⟨f, l, hl⟩ := exists_cons_of_ne_nil (ne_nil_of_mem hx)
  have hfirst : r.first i = some f := by rw [h.first, hl, head?_cons]
  have hnodup := h.nodup i
  have hring := (h.ring i).remove hnodup hx (by rw [hfirst]; nofun)
  refine h.change (hring.congr (fun _ _ => rfl) fun _ _ => rfl) (hnodup.erase x)
    (fun j hj a ha => h.disjoint i j hj.symm (mem_of_mem_erase ha)) ?_ ?_ ?_
  · simp only [LinkedRings.removeEntry, LinkedRings.remove, hfirst, init]
    rw [hl] at hnodup ⊢
    have hring := hl ▸ h.ring i
    by_cases hfx : f = x
    · subst hfx
      rw [if_pos rfl, erase_cons_head]
      cases l with
      | nil => simp [(hring.close f rfl f rfl).1]
      | cons n l =>
        obtain ⟨hnext, -⟩ := (ring_cons_cons.1 hring).1
        have hnf : n ≠ f := fun e => (nodup_cons.1 hnodup).1 (e ▸ mem_cons_self)
        simp [hnext, hnf]
    · rw [if_neg hfx, erase_cons_tail (by simpa using hfx), head?_cons, ← hfirst,
        update_eq_self]
  · rw [length_erase_of_mem hx, ← h.num]
    rfl
  · intro j hj a ha
    have hne : ∀ {b}, b ∈ lists i → a ≠ b := fun hb e => h.disjoint i j hj.symm (e ▸ hb) ha
    obtain ⟨hnext, hprev⟩ := (h.ring i).mem hx
    have hprev' : a ≠ update r.prev (r.next x) (r.prev x) x := by
      by_cases hself : x = r.next x
      · rw [← hself, update_self]
        exact hne hprev
      · rw [update_of_ne hself]
        exact hne hprev
    simp only [LinkedRings.removeEntry, LinkedRings.remove, hfirst, init]
    simp [hne hx, hne hnext, hprev']

end LinkedRings
