import Athrill.Dwarf.Info
import Mathlib.Data.List.Chain

/-!
# Tables of abbreviations (`lib/dwarf/elf_dwarf_abbrev.c`)

`.debug_abbrev` holds one table of declarations after the other, each ended by the code zero. Main result:
`elf_dwarf_abbrev_get_from_code_iff`.
-/

namespace Athrill

open Leb128 List Option

/-! ## Loading -/

def abbrevAttrs (data : List UInt8) : Nat → Nat → Option (List Nat × List Nat × Nat)
  | 0, _ => none
  | n + 1, off =>
    let name := elfDwarfDecodeUleb128 (data.drop off)
    let form := elfDwarfDecodeUleb128 (data.drop (off + name.2))
    let off := off + name.2 + form.2
    if name.1 = 0 then some ([name.1], [form.1], off)
    else
      (abbrevAttrs data n off).map fun r => (name.1 :: r.1, form.1 :: r.2.1, r.2.2)

def abbrevDecl (data : List UInt8) (index off : Nat) (code : Nat × Nat) :
    Option (ElfDwarfAbbrevType × Nat) :=
  let tag := elfDwarfDecodeUleb128 (data.drop (off + code.2))
  let child := (data.drop (off + code.2 + tag.2)).headD 0
  (abbrevAttrs data (data.length + 1) (off + code.2 + tag.2 + 1)).map fun r =>
    (⟨index, off, code.1, tag.1, child.toNat, r.1, r.2.1⟩, r.2.2)

def abbrevLoop (data : List UInt8) : Nat → Nat → List ElfDwarfAbbrevType → Option (List ElfDwarfAbbrevType)
  | 0, off, entries => if off < data.length then none else some entries
  | n + 1, off, entries =>
    if off < data.length then
      let code := elfDwarfDecodeUleb128 (data.drop off)
      if code.1 = 0 then abbrevLoop data n (off + code.2) entries
      else
        (abbrevDecl data entries.length off code).bind fun r =>
          abbrevLoop data n r.2 (entries ++ [r.1])
    else some entries

def elfDwarfAbbrevLoad (debugAbbrev : Except StdReturnType (List UInt8)) :
    Option (StdReturnType × List ElfDwarfAbbrevType) :=
  match debugAbbrev with
  | .error err => some (err, [])
  | .ok data => (abbrevLoop data data.length 0 []).map fun entries => (.ok, entries)

/-! ## Encoded tables -/

structure Uleb where
  bytes : List UInt8
  isLeb : IsLeb bytes
  length_le : bytes.length ≤ 5
  value_lt : value bytes < 2 ^ 28

def Uleb.val (n : Uleb) : Nat := value n.bytes

theorem Uleb.decode (n : Uleb) {data tail : List UInt8} {off : Nat} (h : data.drop off = n.bytes ++ tail) :
    elfDwarfDecodeUleb128 (data.drop off) = (n.val, n.bytes.length) := by
  rw [h, elfDwarfDecodeUleb128_append n.isLeb, Nat.mod_eq_of_lt n.value_lt, Nat.min_eq_left n.length_le,
    val]

/-- Code, tag, whether there are children, and pairs of names and forms up to a pair of zeros. -/
structure AbbrevDecl where
  code : Uleb
  tag : Uleb
  child : UInt8
  attrs : List (Uleb × Uleb)
  close : Uleb × Uleb
  code_pos : 0 < code.val
  attrs_pos : ∀ p ∈ attrs, 0 < p.1.val
  close_eq : close.1.val = 0 ∧ close.2.val = 0

def pairBytes (ps : List (Uleb × Uleb)) : List UInt8 := ps.flatMap fun p => p.1.bytes ++ p.2.bytes

namespace AbbrevDecl

def bytes (d : AbbrevDecl) : List UInt8 :=
  d.code.bytes ++ (d.tag.bytes ++ (d.child :: pairBytes (d.attrs ++ [d.close])))

def entry (d : AbbrevDecl) (index off : Nat) : ElfDwarfAbbrevType where
  index := index
  offset := off
  code := d.code.val
  tag := d.tag.val
  child := d.child.toNat
  attributeName := (d.attrs ++ [d.close]).map (·.1.val)
  attributeForm := (d.attrs ++ [d.close]).map (·.2.val)

end AbbrevDecl

structure AbbrevTable where
  decls : List AbbrevDecl
  close : Uleb
  nodup : (decls.map (·.code.val)).Nodup
  close_eq : close.val = 0

inductive AbbrevItem
  | decl (d : AbbrevDecl)
  | close (n : Uleb) (h : n.val = 0)

def AbbrevItem.bytes : AbbrevItem → List UInt8
  | .decl d => d.bytes
  | .close n _ => n.bytes

def abbrevItems (ts : List AbbrevTable) : List AbbrevItem :=
  ts.flatMap fun t => t.decls.map .decl ++ [.close t.close t.close_eq]

def itemBytes (items : List AbbrevItem) : List UInt8 := items.flatMap AbbrevItem.bytes

def tableBytes (ts : List AbbrevTable) : List UInt8 := itemBytes (abbrevItems ts)

def declCount : List AbbrevItem → Nat
  | [] => 0
  | .decl _ :: items => declCount items + 1
  | .close _ _ :: items => declCount items

def abbrevEntries : Nat → Nat → List AbbrevItem → List ElfDwarfAbbrevType
  | _, _, [] => []
  | index, off, .decl d :: items => d.entry index off :: abbrevEntries (index + 1) (off + d.bytes.length) items
  | index, off, .close n _ :: items => abbrevEntries index (off + n.bytes.length) items

/-! ## What is loaded -/

theorem pairBytes_cons (p : Uleb × Uleb) (ps : List (Uleb × Uleb)) :
    pairBytes (p :: ps) = p.1.bytes ++ (p.2.bytes ++ pairBytes ps) := by
  rw [pairBytes, flatMap_cons, append_assoc]
  rfl

theorem length_le_pairBytes (ps : List (Uleb × Uleb)) : ps.length ≤ (pairBytes ps).length := by
  induction ps with
  | nil => exact Nat.le_refl 0
  | cons p ps ih =>
    have hpos := p.1.isLeb.length_pos
    simp only [pairBytes_cons, length_append, length_cons]
    omega

theorem abbrevAttrs_pairBytes {data tail : List UInt8} {attrs : List (Uleb × Uleb)} {close : Uleb × Uleb}
    (hpos : ∀ p ∈ attrs, 0 < p.1.val) (hclose : close.1.val = 0) {off n : Nat} (hn : attrs.length < n)
    (h : data.drop off = pairBytes (attrs ++ [close]) ++ tail) :
    abbrevAttrs data n off = some ((attrs ++ [close]).map (·.1.val), (attrs ++ [close]).map (·.2.val),
      off + (pairBytes (attrs ++ [close])).length) := by
  induction attrs generalizing off n with
  | nil =>
    obtain ⟨n, rfl⟩ := Nat.exists_eq_add_one_of_ne_zero (Nat.ne_of_gt hn)
    rw [nil_append, pairBytes_cons, append_assoc, append_assoc] at h
    have hname := close.1.decode h
    have hform := close.2.decode (drop_add_of_drop_eq h)
    simp [abbrevAttrs, hname, hform, hclose, pairBytes, Nat.add_assoc]
  | cons p attrs ih =>
    obtain ⟨n, rfl⟩ := Nat.exists_eq_add_one_of_ne_zero (Nat.ne_of_gt (Nat.zero_lt_of_lt hn))
    have hp : p.1.val ≠ 0 := Nat.ne_of_gt (hpos p mem_cons_self)
    rw [cons_append, pairBytes_cons, append_assoc, append_assoc] at h
    have hname := p.1.decode h
    have h' := drop_add_of_drop_eq h
    have hform := p.2.decode h'
    have hrest := ih (fun q hq => hpos q (mem_cons_of_mem _ hq)) (Nat.lt_of_succ_lt_succ hn)
      (drop_add_of_drop_eq h')
    simp only [abbrevAttrs, hname, hform, if_neg hp, hrest, map_some, cons_append,
      map_cons, pairBytes_cons, length_append, some.injEq, Prod.mk.injEq, true_and]
    omega

theorem AbbrevDecl.length_pos (d : AbbrevDecl) : 0 < d.bytes.length := by
  have hpos := d.code.isLeb.length_pos
  rw [bytes, length_append]
  omega

theorem abbrevDecl_bytes {data tail : List UInt8} (d : AbbrevDecl) {off : Nat}
    (h : data.drop off = d.bytes ++ tail) (index : Nat) :
    abbrevDecl data index off (d.code.val, d.code.bytes.length) =
      some (d.entry index off, off + d.bytes.length) := by
  have hlen := congrArg length h
  rw [AbbrevDecl.bytes, append_assoc] at h
  have htag := drop_add_of_drop_eq h
  rw [append_assoc] at htag
  have hchild := drop_add_of_drop_eq htag
  rw [cons_append] at hchild
  have hpairs : data.drop (off + d.code.bytes.length + d.tag.bytes.length + 1) =
      pairBytes (d.attrs ++ [d.close]) ++ tail := by
    rw [← drop_drop, hchild, drop_succ_cons, drop_zero]
  have hcount : d.attrs.length < data.length + 1 := by
    have hle := length_le_pairBytes (d.attrs ++ [d.close])
    simp only [length_drop, length_append, AbbrevDecl.bytes, length_cons] at hlen hle
    omega
  have hattrs := abbrevAttrs_pairBytes d.attrs_pos d.close_eq.1 hcount hpairs
  simp only [abbrevDecl, d.tag.decode htag, hchild, headD_cons, hattrs, map_some,
    AbbrevDecl.entry, AbbrevDecl.bytes, length_append, length_cons, some.injEq,
    Prod.mk.injEq, true_and]
  omega

theorem AbbrevItem.length_pos (item : AbbrevItem) : 0 < item.bytes.length := by
  cases item with
  | decl d => exact d.length_pos
  | close n h => exact n.isLeb.length_pos

theorem itemBytes_cons (item : AbbrevItem) (items : List AbbrevItem) :
    itemBytes (item :: items) = item.bytes ++ itemBytes items :=
  flatMap_cons

theorem abbrevLoop_itemBytes {data : List UInt8} {items : List AbbrevItem} {off n : Nat}
    (h : data.drop off = itemBytes items) (hn : (itemBytes items).length ≤ n)
    (entries : List ElfDwarfAbbrevType) :
    abbrevLoop data n off entries = some (entries ++ abbrevEntries entries.length off items) := by
  induction items generalizing off n entries with
  | nil =>
    have hend : ¬ off < data.length := Nat.not_lt.2 (drop_eq_nil_iff.1 h)
    cases n <;> simp [abbrevLoop, hend, abbrevEntries]
  | cons item items ih =>
    have hpos := item.length_pos
    rw [itemBytes_cons] at h hn
    rw [length_append] at hn
    have hlt : off < data.length := by
      have hlen := congrArg length h
      rw [length_drop, length_append] at hlen
      omega
    obtain ⟨n, rfl⟩ := Nat.exists_eq_add_one_of_ne_zero (show n ≠ 0 by omega)
    have hrest := @ih (off + item.bytes.length) n (drop_add_of_drop_eq h) (by omega)
    rw [abbrevLoop, if_pos hlt]
    cases item with
    | decl d =>
      have hcode : data.drop off = d.code.bytes ++
          (d.tag.bytes ++ (d.child :: pairBytes (d.attrs ++ [d.close])) ++ itemBytes items) := by
        rw [h, AbbrevItem.bytes, AbbrevDecl.bytes, append_assoc]
      have hnext := hrest (entries ++ [d.entry entries.length off])
      rw [AbbrevItem.bytes] at hnext
      simp only [d.code.decode hcode, if_neg (Nat.ne_of_gt d.code_pos), abbrevDecl_bytes d h,
        bind_some, hnext, abbrevEntries, append_assoc, singleton_append,
        length_append, length_singleton]
    | close z hz =>
      have hnext := hrest entries
      rw [AbbrevItem.bytes] at hnext
      simp only [z.decode h, hz, if_true, hnext, abbrevEntries]

theorem elfDwarfAbbrevLoad_tableBytes (ts : List AbbrevTable) :
    elfDwarfAbbrevLoad (.ok (tableBytes ts)) = some (.ok, abbrevEntries 0 0 (abbrevItems ts)) := by
  have hloop := @abbrevLoop_itemBytes (tableBytes ts) (abbrevItems ts) 0 (tableBytes ts).length
    drop_zero (Nat.le_refl _) []
  rw [elfDwarfAbbrevLoad, hloop, map_some, nil_append, length_nil]

/-! ## The loaded array -/

theorem abbrevEntries_append (xs ys : List AbbrevItem) (index off : Nat) :
    abbrevEntries index off (xs ++ ys) = abbrevEntries index off xs ++
      abbrevEntries (index + declCount xs) (off + (itemBytes xs).length) ys := by
  induction xs generalizing index off with
  | nil => rfl
  | cons item xs ih =>
    cases item with
    | decl d =>
      simp only [cons_append, abbrevEntries, ih, declCount, itemBytes_cons, length_append,
        AbbrevItem.bytes, Nat.add_assoc, Nat.add_comm 1]
    | close n h =>
      simp only [cons_append, abbrevEntries, ih, declCount, itemBytes_cons, length_append,
        AbbrevItem.bytes, Nat.add_assoc]

theorem length_abbrevEntries (items : List AbbrevItem) (index off : Nat) :
    (abbrevEntries index off items).length = declCount items := by
  induction items generalizing index off with
  | nil => rfl
  | cons item items ih => cases item <;> simp [abbrevEntries, declCount, ih]

theorem index_abbrevEntries (items : List AbbrevItem) (index off : Nat) :
    (abbrevEntries index off items).map (·.index) = range' index (declCount items) := by
  induction items generalizing index off with
  | nil => rfl
  | cons item items ih =>
    cases item with
    | decl d => simp only [abbrevEntries, map_cons, ih, declCount, range'_succ, AbbrevDecl.entry]
    | close n h => simp only [abbrevEntries, ih, declCount]

theorem offset_abbrevEntries {items : List AbbrevItem} {index off : Nat} {e : ElfDwarfAbbrevType}
    (h : e ∈ abbrevEntries index off items) :
    off ≤ e.offset ∧ e.offset < off + (itemBytes items).length := by
  induction items generalizing index off with
  | nil => cases h
  | cons item items ih =>
    have hpos := item.length_pos
    rw [itemBytes_cons, length_append]
    cases item with
    | decl d =>
      rcases mem_cons.1 h with rfl | h
      · exact ⟨Nat.le_refl _, by simp only [AbbrevDecl.entry]; omega⟩
      · have := ih h
        simp only [AbbrevItem.bytes]
        omega
    | close n hn =>
      have := ih h
      simp only [AbbrevItem.bytes]
      omega

/-! ## Lookups -/

def Reached (codes : List Nat) (k : Nat) : Prop := (0 :: codes.take (k + 1)).Pairwise (· < ·)

/-- A declaration of the code is reached exactly if it is one of the table itself. -/
def CodeFits (own later : List Nat) (code : Nat) : Prop :=
  ∀ k, (own ++ later)[k]? = some code → (Reached (own ++ later) k ↔ k < own.length)

theorem mem_take_of_getElem? {codes : List Nat} {j k code : Nat} (h : codes[j]? = some code) (hjk : j ≤ k) :
    code ∈ codes.take (k + 1) := by
  refine mem_of_getElem? (i := j) ?_
  rw [getElem?_take_of_lt (Nat.lt_succ_of_le hjk), h]

theorem searchCode_eq_some_iff {code last : Nat} {entries : List ElfDwarfAbbrevType}
    {e : ElfDwarfAbbrevType} :
    searchCode code entries last = some e ↔ ∃ k, entries[k]? = some e ∧ e.code = code ∧
      (last :: (entries.map (·.code)).take (k + 1)).Pairwise (· < ·) := by
  induction entries generalizing last with
  | nil => simp [searchCode]
  | cons x xs ih =>
    have hchain : ∀ k, (last :: ((x :: xs).map (·.code)).take (k + 1)).Pairwise (· < ·) ↔
        last < x.code ∧ (x.code :: (xs.map (·.code)).take k).Pairwise (· < ·) := by
      intro k
      rw [map_cons, take_succ_cons, ← isChain_iff_pairwise, isChain_cons_cons,
        isChain_iff_pairwise]
    simp only [searchCode, hchain]
    split_ifs with hlast hcode
    · refine iff_of_false (fun h => by cases h) ?_
      rintro ⟨k, -, -, hlt, -⟩
      exact Nat.not_lt.2 hlast hlt
    · constructor
      · intro h
        cases h
        exact ⟨0, rfl, hcode, Nat.lt_of_not_le hlast, by simp⟩
      · rintro ⟨k, hk, hc, -, hasc⟩
        cases k with
        | zero => exact hk
        | succ k =>
          -- the codes ascend, so that a later place has a larger one
          have hmem : e.code ∈ (xs.map (·.code)).take (k + 1) :=
            mem_take_of_getElem? (by rw [getElem?_map, getElem?_cons_succ.symm.trans hk]; rfl)
              (Nat.le_refl k)
          have hlt := (pairwise_cons.1 hasc).1 _ hmem
          omega
    · rw [ih]
      constructor
      · rintro ⟨k, hk, hc, hasc⟩
        exact ⟨k + 1, hk, hc, Nat.lt_of_not_le hlast, hasc⟩
      · rintro ⟨k, hk, hc, -, hasc⟩
        cases k with
        | zero =>
          cases hk
          exact absurd hc hcode
        | succ k => exact ⟨k, hk, hc, hasc⟩

theorem Reached.ne_of_lt {codes : List Nat} {j k code : Nat} (h : Reached codes k) (hjk : j < k)
    (hj : codes[j]? = some code) : codes[k]? ≠ some code := by
  intro hk
  have hasc := (List.pairwise_cons.1 h).2
  obtain ⟨hjlt, hj⟩ := List.getElem?_eq_some_iff.1 hj
  obtain ⟨hklt, hk⟩ := List.getElem?_eq_some_iff.1 hk
  have hlt := pairwise_iff_getElem.1 hasc j k (by rw [length_take]; omega)
    (by rw [length_take]; omega) hjk
  rw [getElem_take, getElem_take, hj, hk] at hlt
  exact Nat.lt_irrefl _ hlt

theorem searchCode_eq_find?_iff {own later : List ElfDwarfAbbrevType}
    (hcodes : (own.map (·.code)).Nodup) (hdistinct : (own ++ later).Nodup) (code : Nat) :
    searchCode code (own ++ later) 0 = own.find? (·.code == code) ↔
      CodeFits (own.map (·.code)) (later.map (·.code)) code := by
  have hmap : own.map (·.code) ++ later.map (·.code) = (own ++ later).map (·.code) := map_append.symm
  have hat : ∀ {k c : Nat}, ((own ++ later).map (·.code))[k]? = some c ↔
      ∃ e, (own ++ later)[k]? = some e ∧ e.code = c := by
    intro k c
    rw [getElem?_map, map_eq_some_iff]
  unfold CodeFits
  rw [hmap, length_map]
  cases hfind : own.find? (·.code == code) with
  | none =>
    have hnone : ∀ k e, (own ++ later)[k]? = some e → e.code = code → ¬ k < own.length := by
      intro k e he hcode hk
      rw [getElem?_append_left hk] at he
      exact find?_eq_none.1 hfind e (mem_of_getElem? he) (by simpa using hcode)
    constructor
    · intro hsearch k hk
      obtain ⟨e, he, hcode⟩ := hat.1 hk
      refine iff_of_false (fun hreached => ?_) (hnone k e he hcode)
      rw [searchCode_eq_some_iff.2 ⟨k, he, hcode, hreached⟩] at hsearch
      cases hsearch
    · intro hfits
      rw [eq_none_iff_forall_ne_some]
      intro e hsearch
      obtain ⟨k, he, hcode, hreached⟩ := searchCode_eq_some_iff.1 hsearch
      exact hnone k e he hcode ((hfits k (hat.2 ⟨e, he, hcode⟩)).1 hreached)
  | some a =>
    have hcode : a.code = code := by simpa using find?_some hfind
    obtain ⟨i, hi⟩ := List.mem_iff_getElem?.1 (List.mem_of_find?_eq_some hfind)
    have hlt : i < own.length := (List.getElem?_eq_some_iff.1 hi).1
    have hi' : (own ++ later)[i]? = some a := by rw [List.getElem?_append_left hlt, hi]
    have hplace : ∀ {k}, (own ++ later)[k]? = some a → k = i := fun hk =>
      (List.getElem?_inj (List.getElem?_eq_some_iff.1 hk).1 hdistinct).1 (hk.trans hi'.symm)
    constructor
    · intro hsearch k hk
      obtain ⟨k₀, hk₀, -, hreached⟩ := searchCode_eq_some_iff.1 hsearch
      obtain rfl := hplace hk₀
      obtain ⟨e, he, hecode⟩ := hat.1 hk
      by_cases hkown : k < own.length
      · rw [getElem?_append_left hkown] at he
        have hea : e = a := inj_on_of_nodup_map hcodes (mem_of_getElem? he)
          (mem_of_getElem? hi) (hecode.trans hcode.symm)
        have hki : k = k₀ := hplace (by rw [getElem?_append_left hkown, he, hea])
        rw [hki]
        exact iff_of_true hreached hlt
      · refine iff_of_false (fun hreached' => ?_) hkown
        exact hreached'.ne_of_lt (Nat.lt_of_lt_of_le hlt (Nat.le_of_not_lt hkown))
          (hat.2 ⟨a, hi', hcode⟩) hk
    · intro hfits
      exact searchCode_eq_some_iff.2 ⟨i, hi', hcode, (hfits i (hat.2 ⟨a, hi', hcode⟩)).2 hlt⟩

theorem Reached.mono {codes : List Nat} {j k : Nat} (h : Reached codes k) (hjk : j ≤ k) :
    Reached codes j := by
  have hsub : (codes.take (j + 1)).Sublist (codes.take (k + 1)) :=
    (take_prefix_take_left (Nat.succ_le_succ hjk)).sublist
  exact List.Pairwise.sublist (hsub.cons_cons 0) h

theorem forall_codeFits_iff {own later : List Nat} (hne : own ≠ []) (hpos : ∀ code ∈ own, 0 < code) :
    (∀ code, CodeFits own later code) ↔
      own.Pairwise (· < ·) ∧ ∀ x ∈ later.head?, ∀ y ∈ own.getLast?, x ≤ y := by
  have hlen : 0 < own.length := length_pos_iff.2 hne
  have hlast : Reached (own ++ later) (own.length - 1) ↔ own.Pairwise (· < ·) := by
    rw [Reached, Nat.sub_add_cancel hlen, take_left, pairwise_cons]
    exact and_iff_right hpos
  -- the codes go on exactly if the next one is larger than the last one of the table
  have hnext : ∀ x, later.head? = some x → (Reached (own ++ later) own.length ↔
      own.Pairwise (· < ·) ∧ ∀ y ∈ own.getLast?, y < x) := by
    intro x hx
    obtain ⟨rest, rfl⟩ := head?_eq_some_iff.1 hx
    have htake : (own ++ x :: rest).take (own.length + 1) = own ++ [x] := by
      rw [take_length_add_append, take_succ_cons, take_zero]
    rw [Reached, htake, ← cons_append, ← isChain_iff_pairwise, isChain_append,
      isChain_iff_pairwise, pairwise_cons, and_iff_right hpos]
    simp [getLast?_cons, getLast?_eq_some_getLast hne]
  constructor
  · intro hfits
    have hasc : own.Pairwise (· < ·) := by
      refine hlast.1 ((hfits _ _ (getElem?_eq_getElem (i := own.length - 1) ?_)).2 (by omega))
      rw [length_append]
      omega
    refine ⟨hasc, fun x hx y hy => ?_⟩
    have hat : (own ++ later)[own.length]? = some x := by
      rw [getElem?_append_right (Nat.le_refl _), Nat.sub_self, ← head?_eq_getElem?, hx]
    by_contra hlt
    have hreached : Reached (own ++ later) own.length :=
      (hnext x hx).2 ⟨hasc, fun y' hy' => some.inj (hy.symm.trans hy') ▸ Nat.lt_of_not_le hlt⟩
    exact Nat.lt_irrefl _ ((hfits x own.length hat).1 hreached)
  · rintro ⟨hasc, hstop⟩ code k hk
    by_cases hkown : k < own.length
    · exact iff_of_true ((hlast.2 hasc).mono (Nat.le_sub_one_of_lt hkown)) hkown
    · refine iff_of_false (fun hreached => ?_) hkown
      have hklt := (List.getElem?_eq_some_iff.1 hk).1
      rw [List.length_append] at hklt
      have hlater : later ≠ [] := length_pos_iff.1 (by omega)
      have hhead := head?_eq_some_head hlater
      have hlarger := ((hnext _ hhead).1 (hreached.mono (Nat.le_of_not_lt hkown))).2 _
        (getLast?_eq_some_getLast hne)
      exact Nat.not_lt.2 (hstop _ hhead _ (getLast?_eq_some_getLast hne)) hlarger

/-! ## Lookups in a section -/

def abbrevLookup (abbrevs : List ElfDwarfAbbrevType) (offset code : Nat) :
    Option (Option ElfDwarfAbbrevType) :=
  (elfDwarfAbbrevGet abbrevs offset).map (elfDwarfAbbrevGetFromCode abbrevs · code)

def AbbrevTable.codes (t : AbbrevTable) : List Nat := t.decls.map (·.code.val)

theorem AbbrevTable.codes_pos (t : AbbrevTable) : ∀ code ∈ t.codes, 0 < code := by
  intro code hcode
  obtain ⟨d, -, rfl⟩ := mem_map.1 hcode
  exact d.code_pos

def AbbrevTable.entries (pre : List AbbrevTable) (t : AbbrevTable) : List ElfDwarfAbbrevType :=
  abbrevEntries (declCount (abbrevItems pre)) (tableBytes pre).length (t.decls.map .decl)

theorem code_entries (ds : List AbbrevDecl) (index off : Nat) :
    (abbrevEntries index off (ds.map .decl)).map (·.code) = ds.map (·.code.val) := by
  induction ds generalizing index off with
  | nil => rfl
  | cons d ds ih => simp only [map_cons, abbrevEntries, ih, AbbrevDecl.entry]

theorem code_abbrevEntries (ts : List AbbrevTable) (index off : Nat) :
    (abbrevEntries index off (abbrevItems ts)).map (·.code) = ts.flatMap AbbrevTable.codes := by
  induction ts generalizing index off with
  | nil => rfl
  | cons t ts ih =>
    have hitems : abbrevItems (t :: ts) =
        t.decls.map .decl ++ (.close t.close t.close_eq :: abbrevItems ts) := by
      simp [abbrevItems]
    rw [hitems, abbrevEntries_append, map_append, code_entries, abbrevEntries, ih, flatMap_cons,
      AbbrevTable.codes]

theorem exists_abbrevEntries (pre : List AbbrevTable) (t : AbbrevTable) (post : List AbbrevTable) :
    ∃ before later, abbrevEntries 0 0 (abbrevItems (pre ++ t :: post)) = before ++ (t.entries pre ++ later) ∧
      before.length = declCount (abbrevItems pre) ∧
      (∀ e ∈ before, e.offset < (tableBytes pre).length) ∧
      (∀ e ∈ later, (tableBytes pre).length < e.offset) ∧
      (t.entries pre ++ later).Nodup ∧ later.map (·.code) = post.flatMap AbbrevTable.codes := by
  have hitems : abbrevItems (pre ++ t :: post) =
      abbrevItems pre ++ (t.decls.map .decl ++ (.close t.close t.close_eq :: abbrevItems post)) := by
    simp [abbrevItems]
  refine ⟨abbrevEntries 0 0 (abbrevItems pre),
    abbrevEntries (declCount (abbrevItems pre) + declCount (t.decls.map .decl))
      ((tableBytes pre).length + (itemBytes (t.decls.map .decl)).length)
      (.close t.close t.close_eq :: abbrevItems post), ?_, length_abbrevEntries _ _ _, ?_, ?_, ?_, ?_⟩
  · rw [hitems, abbrevEntries_append, abbrevEntries_append, Nat.zero_add, Nat.zero_add]
    rfl
  · intro e he
    have := (offset_abbrevEntries he).2
    rwa [Nat.zero_add] at this
  · intro e he
    rw [abbrevEntries] at he
    have hpos := t.close.isLeb.length_pos
    have := (offset_abbrevEntries he).1
    omega
  · refine List.Nodup.of_map (·.index) ?_
    rw [AbbrevTable.entries, ← abbrevEntries_append, index_abbrevEntries]
    exact nodup_range'
  · rw [abbrevEntries, code_abbrevEntries]

theorem AbbrevTable.entries_cons {t : AbbrevTable} {d : AbbrevDecl} {ds : List AbbrevDecl}
    (h : t.decls = d :: ds) (pre : List AbbrevTable) :
    t.entries pre = d.entry (declCount (abbrevItems pre)) (tableBytes pre).length ::
      abbrevEntries (declCount (abbrevItems pre) + 1) ((tableBytes pre).length + d.bytes.length)
        (ds.map .decl) := by
  rw [entries, h]
  rfl

/-- A lookup by the start of a table and a code gives the declaration of the table exactly if the table is
not empty and, of the declarations with the code from its first one on, those that ascending codes lead up to
are the table's own. This is so for every code exactly if the table is not empty, its codes ascend, and the
next table that is not empty does not begin with a larger code than its last one. -/
theorem elf_dwarf_abbrev_get_from_code_iff (pre : List AbbrevTable) (t : AbbrevTable)
    (post : List AbbrevTable) :
    ∃ abbrevs, elfDwarfAbbrevLoad (.ok (tableBytes (pre ++ t :: post))) = some (.ok, abbrevs) ∧
      (∀ code, abbrevLookup abbrevs (tableBytes pre).length code =
          some ((t.entries pre).find? (·.code == code)) ↔
        t.decls ≠ [] ∧ CodeFits t.codes (post.flatMap AbbrevTable.codes) code) ∧
      ((∀ code, abbrevLookup abbrevs (tableBytes pre).length code =
          some ((t.entries pre).find? (·.code == code))) ↔
        t.decls ≠ [] ∧ t.codes.Pairwise (· < ·) ∧
          ∀ x ∈ (post.flatMap AbbrevTable.codes).head?, ∀ y ∈ t.codes.getLast?, x ≤ y) := by
  obtain ⟨before, later, hentries, hlen, hbefore, hlater, hnodup, hcodes⟩ := exists_abbrevEntries pre t post
  have hown : (t.entries pre).map (·.code) = t.codes := code_entries _ _ _
  have hiff : ∀ code, abbrevLookup (before ++ (t.entries pre ++ later)) (tableBytes pre).length code =
      some ((t.entries pre).find? (·.code == code)) ↔
        t.decls ≠ [] ∧ CodeFits t.codes (post.flatMap AbbrevTable.codes) code := by
    intro code
    have hskip : before.find? (fun e => e.offset == (tableBytes pre).length) = none :=
      find?_eq_none.2 fun e he => by simpa using Nat.ne_of_lt (hbefore e he)
    cases hdecls : t.decls with
    | nil =>
      -- nothing begins at the offset of an empty table
      have hempty : t.entries pre = [] := by rw [AbbrevTable.entries, hdecls]; rfl
      have hnone : later.find? (fun e => e.offset == (tableBytes pre).length) = none :=
        find?_eq_none.2 fun e he => by simpa using Nat.ne_of_gt (hlater e he)
      rw [abbrevLookup, elfDwarfAbbrevGet, hempty, nil_append, find?_append, hskip,
        none_or, hnone]
      simp
    | cons d ds =>
      have hget : elfDwarfAbbrevGet (before ++ (t.entries pre ++ later)) (tableBytes pre).length =
          some (d.entry (declCount (abbrevItems pre)) (tableBytes pre).length) := by
        rw [elfDwarfAbbrevGet, find?_append, hskip, none_or, AbbrevTable.entries_cons hdecls,
          cons_append, find?_cons_of_pos (by simp [AbbrevDecl.entry])]
      have hdrop : (before ++ (t.entries pre ++ later)).drop
          (d.entry (declCount (abbrevItems pre)) (tableBytes pre).length).index =
            t.entries pre ++ later := by
        rw [AbbrevDecl.entry, ← hlen, drop_left]
      rw [abbrevLookup, hget, map_some, elfDwarfAbbrevGetFromCode, hdrop, some.injEq,
        searchCode_eq_find?_iff (hown ▸ t.nodup) hnodup, hown, hcodes, and_iff_right (cons_ne_nil _ _)]
  refine ⟨_, elfDwarfAbbrevLoad_tableBytes _, hentries ▸ hiff, ?_⟩
  rw [hentries]
  simp only [hiff]
  constructor
  · intro h
    have hne : t.codes ≠ [] := by simpa [AbbrevTable.codes] using (h 0).1
    exact ⟨(h 0).1, (forall_codeFits_iff hne t.codes_pos).1 fun code => (h code).2⟩
  · rintro ⟨hdecls, hfits⟩ code
    have hne : t.codes ≠ [] := by simpa [AbbrevTable.codes] using hdecls
    exact ⟨hdecls, (forall_codeFits_iff hne t.codes_pos).2 hfits code⟩

def ulebByte (b : UInt8) (h : b.toNat < 128) : Uleb where
  bytes := [b]
  isLeb := by simp [IsLeb, h]
  length_le := by simp
  value_lt := by
    simp only [value]
    omega

def bareDecl (code tag : UInt8) (hcode : code.toNat < 128) (htag : tag.toNat < 128)
    (hpos : 0 < (ulebByte code hcode).val) : AbbrevDecl where
  code := ulebByte code hcode
  tag := ulebByte tag htag
  child := 0
  attrs := []
  close := (ulebByte 0 (by decide), ulebByte 0 (by decide))
  code_pos := hpos
  attrs_pos := fun _ h => by cases h
  close_eq := by decide

def declOne : AbbrevDecl := bareDecl 1 0x11 (by decide) (by decide) (by decide)

def declTwo : AbbrevDecl := bareDecl 2 0x24 (by decide) (by decide) (by decide)

def bareTable (decls : List AbbrevDecl) (h : (decls.map (·.code.val)).Nodup) : AbbrevTable where
  decls := decls
  close := ulebByte 0 (by decide)
  nodup := h
  close_eq := by decide

/-- After a table with the code 1 there is one with the code 2: it is found from the first table, which has
no such code. In a table with the codes 2 and 1 the second declaration is not found. -/
theorem elf_dwarf_abbrev_get_from_code_other_table :
    (∃ abbrevs, elfDwarfAbbrevLoad (.ok (tableBytes
        [bareTable [declOne] (by decide), bareTable [declTwo] (by decide)])) = some (.ok, abbrevs) ∧
      ((bareTable [declOne] (by decide)).entries []).find? (·.code == 2) = none ∧
      abbrevLookup abbrevs 0 2 = some (some (declTwo.entry 1 6))) ∧
    ∃ abbrevs, elfDwarfAbbrevLoad (.ok (tableBytes [bareTable [declTwo, declOne] (by decide)])) =
        some (.ok, abbrevs) ∧
      ((bareTable [declTwo, declOne] (by decide)).entries []).find? (·.code == 1) =
        some (declOne.entry 1 5) ∧
      abbrevLookup abbrevs 0 1 = some none :=
  ⟨⟨_, rfl, by decide, by decide⟩, ⟨_, rfl, by decide, by decide⟩⟩

end Athrill
