import Athrill.Elf.SectionSafe

/-!
# The two ELF classes (`lib/dwarf/elf_section.c`)

ELF32 and ELF64 images have separate loops in `elf_symbol_load` and `elf_section_get`. Main result:
`elf_classes_agree_iff`.
-/

namespace Athrill

open Bytes Checker List

structure SymbolContents where
  name : Option (List UInt8)
  value : Nat
  size : Nat
  info : Nat
  deriving DecidableEq

def symbolsOf (img : ElfImage) (t : ElfSectionView) : List SymbolContents :=
  (range (t.size / symSize (headerAt img).is64)).map fun k =>
    let s := symbolAt img (headerAt img) t k
    ⟨cstrAt img.bytes ((sectionAt img (headerAt img) t.link).offset + s.name), s.value, s.size, s.info⟩

inductive SectionContents
  | symbols (l : List SymbolContents)
  | bytes (l : List UInt8)
  | nobits (size : Nat)
  deriving DecidableEq

def sectionContents (img : ElfImage) (i : Nat) : SectionContents :=
  let s := sectionAt img (headerAt img) i
  if s.type = shtSymtab then .symbols (symbolsOf img s)
  else if s.type = shtNull ∨ s.type = shtNobits then .nobits s.size
  else .bytes (slice img.bytes s.offset s.size)

/-- An ELF32 and an ELF64 image with the same list of sections. -/
structure SameSections (a b : ElfImage) : Prop where
  class32 : (headerAt a).is64 = false
  class64 : (headerAt b).is64 = true
  num : (headerAt a).shnum = (headerAt b).shnum
  strndx : (headerAt a).shstrndx = (headerAt b).shstrndx
  sections : ∀ i < (headerAt b).shnum,
    (sectionAt a (headerAt a) i).type = (sectionAt b (headerAt b) i).type ∧
    (sectionAt a (headerAt a) i).link = (sectionAt b (headerAt b) i).link ∧
    sectionNameAt a (headerAt a) i = sectionNameAt b (headerAt b) i ∧
    sectionContents a i = sectionContents b i

abbrev ListedSymbol (W : Nat) := List UInt8 × AthrillAddrType W × Nat × ElfSymbolEnumType

def elfSymbols (W : Nat) (img : ElfImage) (st : ElfSectionState) : List (Option (ListedSymbol W)) :=
  match elfsymGetSymbolNum st with
  | .error _ => []
  | .ok num => (range num).map fun index =>
    match elfsymGetSymbol W img st index with
    | .ok (.ok s) => (cstrAt img.bytes s.name).map fun name => (name, s.addr, s.size, s.type)
    | _ => none

def foundSection (img : ElfImage) (key : List UInt8) : Option Nat :=
  (range (headerAt img).shnum).find? (sectionMatches img (headerAt img) key)

def foundResult (img : ElfImage) (key : List UInt8) : Except StdReturnType (Nat × Nat) :=
  match foundSection img key with
  | none => .error .noent
  | some i => .ok ((sectionAt img (headerAt img) i).offset, (sectionAt img (headerAt img) i).size)

/-- The two images give the same symbols and the same contents for every section name. -/
def ClassesAgree (W : Nat) (a b : ElfImage) : Prop :=
  ∃ ra sa rb sb, elfSymbolLoad a .init = .ok (ra, sa) ∧ elfSymbolLoad b .init = .ok (rb, sb) ∧
    (ra = .ok ↔ rb = .ok) ∧
    (ra = .ok → rb = .ok → elfSymbols W a sa = elfSymbols W b sb ∧ none ∉ elfSymbols W a sa) ∧
    ∀ key, elfSectionGet a sa key = .ok (foundResult a key) ∧
      elfSectionGet b sb key = .ok (foundResult b key) ∧
      (foundSection a key).map (sectionContents a) = (foundSection b key).map (sectionContents b)

def IsSymtab (img : ElfImage) (i : Nat) : Prop :=
  i < (headerAt img).shnum ∧ (sectionAt img (headerAt img) i).type = shtSymtab

def SymbolContents.listed (W : Nat) (s : SymbolContents) : Option (ListedSymbol W) :=
  s.name.map fun name => (name, BitVec.ofNat W s.value, s.size, elfSymbolEnumType s.info)

/-- What the two classes choose differently comes to the same. -/
structure SameChoice (W : Nat) (img : ElfImage) : Prop where
  strtab : (∃ i, IsSymtab img i) → ∃ i < (headerAt img).shnum, i ≠ (headerAt img).shstrndx ∧
    (sectionAt img (headerAt img) i).type = shtStrtab
  symbols : ∀ i j, IsSymtab img i → IsSymtab img j → (∀ k, IsSymtab img k → i ≤ k ∧ k ≤ j) →
    (symbolsOf img (sectionAt img (headerAt img) i)).map (SymbolContents.listed W) =
      (symbolsOf img (sectionAt img (headerAt img) j)).map (SymbolContents.listed W)
  names : (headerAt img).shnum ≠ 0 →
    let k := (headerAt img).shstrndx
    let name := sectionNameAt img (headerAt img)
    (∃ i < k, name i = name k) ∨ ∃ i < (headerAt img).shnum, k < i ∧ name i = name k ∧
      (∀ j < i, k < j → name j ≠ name k) ∧ sectionContents img i = sectionContents img k

section
variable {img a b : ElfImage} {st : ElfSectionState} {t : ElfSectionView}

theorem SymbolsLoaded.elfSymbols_eq (hl : SymbolsLoaded img st t) (W : Nat)
    (hsmall : ∀ s ∈ symbolsOf img t, s.size ≤ 0xffffffff) :
    elfSymbols W img st = (symbolsOf img t).map (SymbolContents.listed W) := by
  rw [elfSymbols, hl.num, hl.is64, symbolsOf, map_map]
  refine map_congr_left fun index hi => ?_
  rw [hl.getSymbol W (mem_range.1 hi)]
  have hsize := hsmall _ (mem_map_of_mem hi)
  dsimp only at hsize ⊢
  rw [if_neg fun h => absurd h.2 (Nat.not_lt.2 hsize)]
  rfl

theorem SymbolsLoaded.none_notMem (hl : SymbolsLoaded img st t) (W : Nat) :
    none ∉ (symbolsOf img t).map (SymbolContents.listed W) := by
  rw [symbolsOf, map_map, mem_map]
  rintro ⟨index, hi, h⟩
  obtain ⟨-, q, hq, -, hzero⟩ := hl.names_end (mem_range.1 hi)
  obtain ⟨name, hname⟩ := cstrAt_isSome hq hzero
  simp only [Function.comp_apply, SymbolContents.listed, hname, Option.map_some] at h
  cases h

theorem size_le_of_elf32 (h32 : (headerAt img).is64 = false) : ∀ s ∈ symbolsOf img t, s.size ≤ 0xffffffff := by
  intro s hs
  obtain ⟨k, -, rfl⟩ := mem_map.1 hs
  have hlt := leAt_lt (slice img.bytes (t.offset + k * 16) 16) 8 4
  rw [symbolAt, h32]
  exact Nat.le_of_lt_succ hlt

theorem SameSections.symbolsOf_eq (h : SameSections a b) {i : Nat} (hi : IsSymtab b i) :
    symbolsOf a (sectionAt a (headerAt a) i) = symbolsOf b (sectionAt b (headerAt b) i) := by
  obtain ⟨htype, -, -, hcontents⟩ := h.sections i hi.1
  rw [sectionContents, sectionContents, if_pos (htype.trans hi.2), if_pos hi.2] at hcontents
  exact SectionContents.symbols.inj hcontents

theorem SameSections.isSymtab_iff (h : SameSections a b) (i : Nat) : IsSymtab a i ↔ IsSymtab b i := by
  rw [IsSymtab, IsSymtab, h.num]
  exact and_congr_right fun hi => by rw [(h.sections i hi).1]

/-! ## The chosen table -/

theorem find?_reverse_range_eq_some {n i : Nat} {p : Nat → Bool} :
    (range n).reverse.find? p = some i ↔ i < n ∧ p i = true ∧ ∀ k < n, p k = true → k ≤ i := by
  induction n with
  | zero => simp
  | succ n ih =>
    rw [range_succ, reverse_append, reverse_singleton, singleton_append]
    cases hp : p n with
    | true =>
      rw [find?_cons_of_pos hp, Option.some.injEq]
      constructor
      · rintro rfl
        exact ⟨Nat.lt_succ_self _, hp, fun k hk _ => Nat.le_of_lt_succ hk⟩
      · rintro ⟨hi, -, hlast⟩
        exact Nat.le_antisymm (hlast n (Nat.lt_succ_self n) hp) (Nat.le_of_lt_succ hi)
    | false =>
      rw [find?_cons_of_neg (by rw [hp]; decide), ih]
      have hne : ∀ k, p k = true → (k < n + 1 ↔ k < n) := fun k hk => by
        have : k ≠ n := fun h => by rw [h, hp] at hk; cases hk
        omega
      constructor
      · rintro ⟨hi, hpi, hlast⟩
        exact ⟨by omega, hpi, fun k hk hpk => hlast k ((hne k hpk).1 hk) hpk⟩
      · rintro ⟨hi, hpi, hlast⟩
        exact ⟨(hne i hpi).1 hi, hpi, fun k hk hpk => hlast k (by omega) hpk⟩

theorem chosenSymtab_elf32 (h32 : (headerAt img).is64 = false) {j : Nat} :
    chosenSymtab img = some j ↔ (∃ i < (headerAt img).shnum, i ≠ (headerAt img).shstrndx ∧
      (sectionAt img (headerAt img) i).type = shtStrtab) ∧ IsSymtab img j ∧
      ∀ k, IsSymtab img k → k ≤ j := by
  rw [chosenSymtab, if_neg (by rw [h32]; decide)]
  split_ifs with hany <;> simp only [any_eq_true, mem_range, Bool.and_eq_true, bne_iff_ne,
    beq_iff_eq] at hany
  · simp only [find?_reverse_range_eq_some, beq_iff_eq, IsSymtab, hany, true_and, and_assoc, and_imp]
  · exact iff_of_false (fun h => by cases h) fun h => hany h.1

theorem chosenSymtab_elf64 (h64 : (headerAt img).is64 = true) (hok : ImageOk img) (hsize : img.size < 2 ^ 32)
    {j : Nat} : chosenSymtab img = some j ↔ IsSymtab img j ∧ ∀ k, IsSymtab img k → j ≤ k := by
  rw [chosenSymtab, if_pos h64]
  simp only [Option.filter_eq_some_iff, find?_range_eq_some, mem_range, beq_iff_eq, IsSymtab,
    Bool.not_eq_eq_eq_not, Bool.not_true, beq_eq_false_iff_ne, decide_eq_true_eq]
  constructor
  · rintro ⟨⟨htype, hj, hfirst⟩, -⟩
    exact ⟨⟨hj, htype⟩, fun k hk => not_lt.1 fun hlt => hfirst k hlt hk.2⟩
  · rintro ⟨⟨hj, htype⟩, hfirst⟩
    have hs := hok.sections (Nat.ne_of_gt (Nat.zero_lt_of_lt hj))
    have hin := hs.contents j hj (by simp [ElfSectionView.HasContents, htype])
    exact ⟨⟨htype, hj, fun k hk h => absurd (hfirst k ⟨by omega, h⟩) (by omega)⟩, by omega⟩

theorem IsSymtab.exists_first {i : Nat} (h : IsSymtab img i) :
    ∃ j, IsSymtab img j ∧ ∀ k, IsSymtab img k → j ≤ k := by
  classical
  exact ⟨_, Nat.find_spec ⟨i, h⟩, fun k hk => Nat.find_min' _ hk⟩

theorem IsSymtab.exists_last {i : Nat} (h : IsSymtab img i) :
    ∃ j, IsSymtab img j ∧ ∀ k, IsSymtab img k → k ≤ j := by
  cases hfind : (range (headerAt img).shnum).reverse.find? fun i =>
      (sectionAt img (headerAt img) i).type == shtSymtab with
  | none =>
    have hno := find?_eq_none.1 hfind i (mem_reverse.2 (mem_range.2 h.1))
    exact absurd (beq_iff_eq.2 h.2) hno
  | some j =>
    obtain ⟨hj, htype, hlast⟩ := find?_reverse_range_eq_some.1 hfind
    exact ⟨j, ⟨hj, beq_iff_eq.1 htype⟩, fun k hk => hlast k hk.1 (beq_iff_eq.2 hk.2)⟩

/-! ## The search of a section -/

theorem elfSectionGet_found (hok : ImageOk img) (hsize : img.Addressable)
    (hnames : (headerAt img).is64 = false → (headerAt img).shnum ≠ 0 →
      st.sectionName = some (sectionAt img (headerAt img) (headerAt img).shstrndx).offset)
    (hsmall : (headerAt img).is64 = true → ∀ i < (headerAt img).shnum,
      (sectionAt img (headerAt img) i).size ≤ 0xffffffff) (key : List UInt8) :
    elfSectionGet img st key = .ok (foundResult img key) := by
  rw [elfSectionGet_eq hok hsize hnames key, foundResult, foundSection]
  cases hfind : (range (headerAt img).shnum).find? (sectionMatches img (headerAt img) key) with
  | none => rfl
  | some i =>
    have hi := mem_range.1 (mem_of_find?_eq_some hfind)
    rw [Option.map_some, sectionResult, if_neg fun h => absurd (hsmall h.1 i hi) (Nat.not_le.2 h.2)]

section
variable (h : SameSections a b)
include h

theorem SameSections.size_le (hok : ImageOk b) (hsize : b.size < 2 ^ 32) {i : Nat}
    (hi : i < (headerAt b).shnum) : (sectionAt b (headerAt b) i).size ≤ 0xffffffff := by
  have hs := hok.sections (Nat.ne_of_gt (Nat.zero_lt_of_lt hi))
  by_cases hc : (sectionAt b (headerAt b) i).HasContents
  · have hin := hs.contents i hi hc
    omega
  · obtain ⟨htype, -, -, hcontents⟩ := h.sections i hi
    rw [ElfSectionView.HasContents, not_not] at hc
    have hne : (sectionAt b (headerAt b) i).type ≠ shtSymtab := by
      rintro h
      rw [h] at hc
      exact absurd hc (by decide)
    rw [sectionContents, sectionContents, htype, if_neg hne, if_neg hne, if_pos hc, if_pos hc,
      SectionContents.nobits.injEq] at hcontents
    rw [← hcontents, sectionAt, h.class32]
    exact Nat.le_of_lt_succ (leAt_lt _ _ 4)

theorem SameSections.foundSection_elf64 {key : List UInt8} {i : Nat} :
    foundSection b key = some i ↔ i < (headerAt b).shnum ∧ sectionNameAt b (headerAt b) i = some key ∧
      ∀ j < i, sectionNameAt b (headerAt b) j ≠ some key := by
  rw [foundSection, find?_sectionMatches_eq_some]
  simp only [sectionMatches, h.class64, Bool.true_or, Bool.true_and, beq_iff_eq, beq_eq_false_iff_ne]

theorem SameSections.foundSection_elf32 {key : List UInt8} {i : Nat} :
    foundSection a key = some i ↔ i < (headerAt b).shnum ∧ (i ≠ (headerAt b).shstrndx ∧
      sectionNameAt b (headerAt b) i = some key) ∧
      ∀ j < i, j ≠ (headerAt b).shstrndx → sectionNameAt b (headerAt b) j ≠ some key := by
  rw [foundSection, find?_sectionMatches_eq_some, h.num]
  refine and_congr_right fun hi => ?_
  have hmatch : ∀ j ≤ i, sectionMatches a (headerAt a) key j =
      (j != (headerAt b).shstrndx && sectionNameAt b (headerAt b) j == some key) := fun j hj => by
    rw [sectionMatches, h.class32, h.strndx, (h.sections j (by omega)).2.2.1, Bool.false_or]
  refine and_congr (by simp [hmatch i le_rfl]) (forall₂_congr fun j hj => ?_)
  simp [hmatch j hj.le]

theorem SameSections.found_iff (hok : ImageOk b) :
    (∀ key, (foundSection a key).map (sectionContents a) = (foundSection b key).map (sectionContents b)) ↔
    ((headerAt b).shnum ≠ 0 →
      let k := (headerAt b).shstrndx
      let name := sectionNameAt b (headerAt b)
      (∃ i < k, name i = name k) ∨ ∃ i < (headerAt b).shnum, k < i ∧ name i = name k ∧
        (∀ j < i, k < j → name j ≠ name k) ∧ sectionContents b i = sectionContents b k) := by
  constructor
  · intro hkey hnum
    have hs := hok.sections hnum
    obtain ⟨key, hname⟩ := hs.sectionNameAt_isSome hs.strndx
    by_cases hex : ∃ i < (headerAt b).shstrndx, sectionNameAt b (headerAt b) i =
        sectionNameAt b (headerAt b) (headerAt b).shstrndx
    · exact .inl hex
    have hlow : ∀ j < (headerAt b).shstrndx, sectionNameAt b (headerAt b) j ≠ some key :=
      fun j hj hj' => hex ⟨j, hj, hj'.trans hname.symm⟩
    have hfound := hkey key
    rw [h.foundSection_elf64.2 ⟨hs.strndx, hname, hlow⟩, Option.map_some, Option.map_eq_some_iff] at hfound
    obtain ⟨i, hfind, hcontents⟩ := hfound
    obtain ⟨hi, ⟨hne, hi'⟩, hfirst⟩ := h.foundSection_elf32.1 hfind
    have hlt : (headerAt b).shstrndx < i :=
      lt_of_le_of_ne (not_lt.1 fun hlt => hlow i hlt hi') (Ne.symm hne)
    refine .inr ⟨i, hi, hlt, hi'.trans hname.symm, fun j hj hj' => ?_, ?_⟩
    · rw [hname]
      exact hfirst j hj (Nat.ne_of_gt hj')
    · rw [← (h.sections i hi).2.2.2, hcontents]
  · intro hcond key
    cases hfind : foundSection b key with
    | none =>
      cases hfind' : foundSection a key with
      | none => rfl
      | some i =>
        obtain ⟨hi, ⟨-, hname⟩, -⟩ := h.foundSection_elf32.1 hfind'
        have hno := find?_eq_none.1 hfind i (mem_range.2 hi)
        exact absurd (by simp [sectionMatches, h.class64, hname]) hno
    | some i =>
      obtain ⟨hi, hname, hfirst⟩ := h.foundSection_elf64.1 hfind
      by_cases hne : i = (headerAt b).shstrndx
      · subst hne
        obtain ⟨j, hj, hj'⟩ | ⟨i, hi', hlt, hi'', hnext, hcontents⟩ := hcond (by omega)
        · exact absurd (hj'.trans hname) (hfirst j hj)
        · rw [hname] at hi'' hnext
          rw [h.foundSection_elf32.2 ⟨hi', ⟨Nat.ne_of_gt hlt, hi''⟩, fun j hj hj' => ?_⟩, Option.map_some,
            (h.sections i hi').2.2.2, hcontents, Option.map_some]
          rcases Nat.lt_or_gt_of_ne hj' with hj' | hj'
          · exact hfirst j hj'
          · exact hnext j hj hj'
      · rw [h.foundSection_elf32.2 ⟨hi, ⟨hne, hname⟩, fun j hj _ => hfirst j hj⟩, Option.map_some,
          (h.sections i hi).2.2.2, Option.map_some]

theorem SameSections.elfSymbols_iff {sa sb : ElfSectionState} {i j : Nat} (W : Nat) (hi : IsSymtab b i)
    (hj : IsSymtab b j) (hla : SymbolsLoaded a sa (sectionAt a (headerAt a) j))
    (hlb : SymbolsLoaded b sb (sectionAt b (headerAt b) i)) :
    (elfSymbols W a sa = elfSymbols W b sb ∧ none ∉ elfSymbols W a sa) ↔
      (symbolsOf b (sectionAt b (headerAt b) i)).map (SymbolContents.listed W) =
        (symbolsOf b (sectionAt b (headerAt b) j)).map (SymbolContents.listed W) := by
  have hnone := hla.none_notMem W
  rw [hla.elfSymbols_eq W (size_le_of_elf32 h.class32), h.symbolsOf_eq hj,
    hlb.elfSymbols_eq W (h.symbolsOf_eq hi ▸ size_le_of_elf32 h.class32)]
  rw [h.symbolsOf_eq hj] at hnone
  exact ⟨fun h => h.1.symm, fun h => ⟨h.symm, hnone⟩⟩

end

end

/-- **Two encodings of one program.** An ELF32 and an ELF64 image with the same sections give the same
exactly if the choices of the two classes come to the same for these sections. -/
theorem elf_classes_agree_iff {a b : ElfImage} (W : Nat) (ha : elfImageCheck a = some .ok)
    (hb : elfImageCheck b = some .ok) (hsame : SameSections a b) (hsize : a.Addressable)
    (hsize' : b.size < 2 ^ 32) : ClassesAgree W a b ↔ SameChoice W b := by
  have hok := elfImageCheck_eq_ok.1 ha
  have hok' := elfImageCheck_eq_ok.1 hb
  obtain ⟨sa, hloada, hsa, hna⟩ := symbolLoadOutcome hok hsize
  obtain ⟨sb, hloadb, hsb, hnb⟩ := symbolLoadOutcome hok' fun h => absurd (h.symm.trans hsame.class64) nofun
  have hfound : ∀ key, elfSectionGet a sa key = .ok (foundResult a key) ∧
      elfSectionGet b sb key = .ok (foundResult b key) := fun key =>
    ⟨elfSectionGet_found hok hsize hna (fun h => absurd (h.symm.trans hsame.class32) nofun) key,
      elfSectionGet_found hok' (fun h => absurd (h.symm.trans hsame.class64) nofun) hnb
        (fun _ i hi => hsame.size_le hok' hsize' hi) key⟩
  have hlast : ∀ j, chosenSymtab a = some j ↔ (∃ i < (headerAt b).shnum, i ≠ (headerAt b).shstrndx ∧
      (sectionAt b (headerAt b) i).type = shtStrtab) ∧ IsSymtab b j ∧ ∀ k, IsSymtab b k → k ≤ j := fun j => by
    rw [chosenSymtab_elf32 hsame.class32, hsame.num, hsame.strndx]
    simp only [hsame.isSymtab_iff]
    refine and_congr_left fun _ => exists_congr fun i => and_congr_right fun hi => ?_
    rw [(hsame.sections i hi).1]
  have hfirst := @chosenSymtab_elf64 b hsame.class64 hok' hsize'
  constructor
  · rintro ⟨ra, sa', rb, sb', hloada', hloadb', hiff, hsymbols, hkey⟩
    rw [hloada] at hloada'
    rw [hloadb] at hloadb'
    cases hloada'
    cases hloadb'
    have hstrtab : (∃ i, IsSymtab b i) → ∃ i < (headerAt b).shnum, i ≠ (headerAt b).shstrndx ∧
        (sectionAt b (headerAt b) i).type = shtStrtab := by
      rintro ⟨i, hi⟩
      obtain ⟨j, hj⟩ := hi.exists_first
      rw [hfirst.2 hj] at hiff
      cases hchosen : chosenSymtab a with
      | none =>
        rw [hchosen] at hiff
        exact absurd (hiff.2 rfl) nofun
      | some j => exact ((hlast j).1 hchosen).1
    refine ⟨hstrtab, fun i j hi hj hall => ?_, (hsame.found_iff hok').1 fun key => (hkey key).2.2⟩
    have ha' := (hlast j).2 ⟨hstrtab ⟨i, hi⟩, hj, fun k hk => (hall k hk).2⟩
    have hb' := hfirst.2 ⟨hi, fun k hk => (hall k hk).1⟩
    rw [ha', hb'] at hsymbols
    exact (hsame.elfSymbols_iff W hi hj (hsa j ha') (hsb i hb')).1 (hsymbols rfl rfl)
  · rintro ⟨hstrtab, hsymbols, hnames⟩
    refine ⟨_, sa, _, sb, hloada, hloadb, ?_, fun hra hrb => ?_, fun key => ⟨(hfound key).1, (hfound key).2,
      (hsame.found_iff hok').2 hnames key⟩⟩
    · by_cases hex : ∃ i, IsSymtab b i
      · obtain ⟨i, hi⟩ := hex
        obtain ⟨j, hj⟩ := hi.exists_first
        obtain ⟨j', hj'⟩ := hi.exists_last
        rw [hfirst.2 hj, (hlast j').2 ⟨hstrtab ⟨i, hi⟩, hj'⟩]
        exact Iff.rfl
      · have hnone : chosenSymtab a = none :=
          Option.eq_none_iff_forall_ne_some.2 fun j hj => hex ⟨j, ((hlast j).1 hj).2.1⟩
        have hnone' : chosenSymtab b = none :=
          Option.eq_none_iff_forall_ne_some.2 fun j hj => hex ⟨j, (hfirst.1 hj).1⟩
        rw [hnone, hnone']
    · cases hj : chosenSymtab a with
      | none => rw [hj] at hra; cases hra
      | some j =>
        cases hi : chosenSymtab b with
        | none => rw [hi] at hrb; cases hrb
        | some i =>
          obtain ⟨-, hj', hmax⟩ := (hlast j).1 hj
          obtain ⟨hi', hmin⟩ := hfirst.1 hi
          exact (hsame.elfSymbols_iff W hi' hj' (hsa j hj) (hsb i hi)).2
            (hsymbols i j hi' hj' fun k hk => ⟨hmin k hk, hmax k hk⟩)

/-! ## Two small images -/

def elf64ShdrBytes (s : ElfSectionView) : List UInt8 :=
  leBytes 4 s.name ++ leBytes 4 s.type ++ leBytes 16 0 ++ leBytes 8 s.offset ++ leBytes 8 s.size ++
    leBytes 4 s.link ++ leBytes 12 0 ++ leBytes 8 s.entsize

def elfFile (is64 : Bool) (shstrndx : Nat) (sections : List (Nat × Option Nat)) : List UInt8 :=
  let data := ehdrSize is64 + sections.length * shdrSize is64
  let view := fun
    | (name, none) => ⟨name, shtStrtab, data, 3, 0, 0⟩
    | (name, some link) => ⟨name, shtSymtab, data + 3, symSize is64, link, 0⟩
  elfmag ++ [if is64 then elfclass64 else elfclass32, elfdata2lsb, 1] ++ leBytes 9 0 ++
    (if is64 then leBytes 24 0 ++ leBytes 8 64 else leBytes 16 0 ++ leBytes 4 52) ++ leBytes 10 0 ++
    leBytes 2 (shdrSize is64) ++ leBytes 2 sections.length ++ leBytes 2 shstrndx ++
    sections.flatMap (fun s => if is64 then elf64ShdrBytes (view s) else elf32ShdrBytes (view s)) ++
    [0, 97, 0] ++ leBytes 24 1

def namedTwice (is64 : Bool) : ElfImage :=
  ⟨elfFile is64 1 [(1, none), (1, none), (0, some 0)], by cases is64 <;> decide +kernel⟩

theorem namedTwice_file (is64 : Bool) :
    fileLoad (.holding (namedTwice is64).bytes) = .ok (namedTwice is64).bytes := by
  cases is64 <;> decide +kernel

def sharedNames (is64 : Bool) : ElfImage :=
  ⟨elfFile is64 0 [(1, none), (0, some 0)], by cases is64 <;> decide +kernel⟩

theorem elf_classes_agree_named_twice : ClassesAgree 32 (namedTwice false) (namedTwice true) := by
  have honly : ∀ i, IsSymtab (namedTwice true) i → i = 2 := fun i hi => by
    have hall : ∀ i < (headerAt (namedTwice true)).shnum,
        (sectionAt (namedTwice true) (headerAt (namedTwice true)) i).type = shtSymtab → i = 2 := by
      decide +kernel
    exact hall i hi.1 hi.2
  refine (elf_classes_agree_iff 32 (by decide +kernel) (by decide +kernel)
    ⟨by decide +kernel, by decide +kernel, by decide +kernel, by decide +kernel, by decide +kernel⟩
    (ElfImage.addressable_of_fileLoad (namedTwice_file false))
    (ElfImage.size_lt_of_fileLoad (namedTwice_file true))).2 ⟨fun _ => ⟨0, by decide +kernel⟩, fun i j hi hj _ => ?_,
      fun _ => .inl ⟨0, by decide +kernel⟩⟩
  rw [honly i hi, honly j hj]

/-- The ELF32 image is refused, since no string table is left beside that of the section names. -/
theorem elf_classes_agree_shared_names :
    elfImageCheck (sharedNames false) = some .ok ∧ elfImageCheck (sharedNames true) = some .ok ∧
      SameSections (sharedNames false) (sharedNames true) ∧
      (elfSymbolLoad (sharedNames false) .init).map Prod.fst = .ok .invalid ∧
      (elfSymbolLoad (sharedNames true) .init).map Prod.fst = .ok .ok ∧
      ¬ ClassesAgree 32 (sharedNames false) (sharedNames true) := by
  have hload : (elfSymbolLoad (sharedNames false) .init).map Prod.fst = .ok .invalid ∧
      (elfSymbolLoad (sharedNames true) .init).map Prod.fst = .ok .ok := by
    decide +kernel
  refine ⟨by decide +kernel, by decide +kernel, ⟨by decide +kernel, by decide +kernel, by decide +kernel,
    by decide +kernel, by decide +kernel⟩, hload.1, hload.2, ?_⟩
  rintro ⟨ra, sa, rb, sb, ha, hb, hiff, -⟩
  rw [ha, hb] at hload
  cases hload.1
  cases hload.2
  exact absurd (hiff.2 rfl) nofun

end Athrill
