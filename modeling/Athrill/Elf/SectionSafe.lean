import Athrill.Elf.ImageCheckCorrect
import Athrill.Elf.Section

/-!
# Reading an accepted image

The readers of sections and symbols have no checks of their own: that what they return is inside the file
rests on what the checker established. Main results: `elfsym_get_symbol_inside`, `elf_section_get_inside_iff`.
-/

namespace Athrill

open Bytes Checker List Option

/-! ## The size of an image -/

variable {img : ElfImage} {h : ElfHeaderView} {i : Nat}

/-- The readers add the offsets of an ELF32 image in 32 bits. -/
def ElfImage.Addressable (img : ElfImage) : Prop := (headerAt img).is64 = false → img.size ≤ 2 ^ 32

theorem ElfImage.size_lt_of_fileLoad {host : FileHost} (h : fileLoad host = .ok img.bytes) : img.size < 2 ^ 32 :=
  Nat.lt_of_le_of_lt (length_of_fileLoad h) (by decide)

theorem ElfImage.addressable_of_fileLoad {host : FileHost} (h : fileLoad host = .ok img.bytes) :
    img.Addressable :=
  fun _ => Nat.le_of_lt (size_lt_of_fileLoad h)

/-! ## Reads of an accepted image -/

theorem readEhdr_ok (h : HeaderOk img) : readEhdr img = .ok (headerAt img) := by
  have hident : 16 ≤ img.size := h.ident
  unfold readEhdr headerAt
  rw [ElfImage.byte_ok (Nat.lt_of_lt_of_le (by decide) hident)]
  show (if img.classByte = elfclass64 then _ else _) = _
  rcases h.cls with ⟨hcls, hsize⟩ | ⟨hcls, hsize⟩
  · have hne : ¬ img.classByte = elfclass64 := by rw [hcls]; decide
    rw [if_neg hne, if_neg hne, ElfImage.memcpy_ok (by omega)]
    rfl
  · rw [if_pos hcls, if_pos hcls, ElfImage.memcpy_ok (by omega)]
    rfl

theorem elf32SectionHeader_ok (h32 : h.is64 = false)
    (hs : SectionsOk img h) (hsize : img.size ≤ 2 ^ 32) (hi : i < h.shnum) :
    elf32SectionHeader img h i = .ok (sectionAt img h i) := by
  have hentry := entry_le hs.entsize hi hs.table
  have hpos : 0 < shdrSize h.is64 := by rw [h32]; decide
  have hplace : u32 (h.shoff + u32 (i * h.shentsize)) = h.shoff + i * h.shentsize := by
    simp only [u32]
    omega
  unfold elf32SectionHeader sectionAt
  rw [hplace, h32, ElfImage.memcpy_ok (by rwa [h32] at hentry)]
  rfl

theorem findSection_ok {read : Nat → ElfM ElfSectionView} {test : Nat → ElfSectionView → ElfM Bool}
    (sec : Nat → ElfSectionView) (p : Nat → Bool) (is : List Nat)
    (hread : ∀ i ∈ is, read i = .ok (sec i)) (htest : ∀ i ∈ is, test i (sec i) = .ok (p i)) :
    findSection read test is = .ok ((is.find? p).map sec) := by
  induction is with
  | nil => rfl
  | cons i is ih =>
    have hrest := ih (fun j hj => hread j (mem_cons_of_mem _ hj))
      (fun j hj => htest j (mem_cons_of_mem _ hj))
    rw [findSection, hread i mem_cons_self]
    show (test i (sec i) >>= _) = _
    rw [htest i mem_cons_self]
    show (if p i = true then _ else _) = _
    cases hp : p i with
    | true => simp [hp]
    | false => simpa [hp] using hrest

def sectionNameAt (img : ElfImage) (h : ElfHeaderView) (i : Nat) : Option (List UInt8) :=
  cstrAt img.bytes ((sectionAt img h h.shstrndx).offset + (sectionAt img h i).name)

theorem StringTableOk.getElem?_last {s : ElfSectionView} (h : StringTableOk img s)
    (hin : s.offset + s.size ≤ img.size) : img.bytes[s.offset + s.size - 1]? = some 0 := by
  have hpos := h.size
  have hlt : s.offset + s.size - 1 < img.bytes.length := by
    have hlen : img.size = img.bytes.length := rfl
    omega
  have hlast := h.last
  rw [getD_eq_getElem?_getD, getElem?_eq_getElem hlt] at hlast
  rw [getElem?_eq_getElem hlt]
  exact congrArg some hlast

theorem SectionsOk.strtab_inside (hs : SectionsOk img h) (hi : i < h.shnum)
    (ht : (sectionAt img h i).type = shtStrtab) :
    (sectionAt img h i).offset + (sectionAt img h i).size ≤ img.size :=
  hs.contents i hi (by simp [ElfSectionView.HasContents, ht])

theorem SectionsOk.sectionNameAt_isSome (hs : SectionsOk img h) (hi : i < h.shnum) :
    ∃ name, sectionNameAt img h i = some name := by
  have hlast := hs.strtab.getElem?_last (hs.strtab_inside hs.strndx hs.strtab.type)
  have hname := hs.names i hi
  exact cstrAt_isSome (by omega) hlast

theorem SectionsOk.cstr_beq (hs : SectionsOk img h) (hi : i < h.shnum) (key : List UInt8) :
    (do
      let name ← img.cstr ((sectionAt img h h.shstrndx).offset + (sectionAt img h i).name)
      .ok (key == name) : ElfM Bool) = .ok (sectionNameAt img h i == some key) := by
  obtain ⟨name, hname⟩ := hs.sectionNameAt_isSome hi
  have hc : cstrAt img.bytes ((sectionAt img h h.shstrndx).offset + (sectionAt img h i).name) =
      some name := hname
  rw [ElfImage.cstr, hc, hname]
  show Except.ok (key == name) = _
  rw [some_beq_some, BEq.comm]

/-! ## The chosen symbol table -/

structure SymbolsLoaded (img : ElfImage) (st : ElfSectionState) (t : ElfSectionView) : Prop where
  sections : SectionsOk img (headerAt img)
  is64 : st.elfIs64 = (headerAt img).is64
  mem : ∃ j < (headerAt img).shnum, t = sectionAt img (headerAt img) j
  type : t.type = shtSymtab
  symbols : if st.elfIs64 then st.elf64Symbols = some t.offset else
    st.sym = t.offset ∧ st.symbolShdr.isSome = true ∧ st.stringShdr.isSome = true
  num : elfsymGetSymbolNum st = .ok (t.size / symSize st.elfIs64)
  strings : (if st.elfIs64 then st.elf64StringData else st.stringData) =
    (sectionAt img (headerAt img) t.link).offset
  names : st.elfIs64 = false →
    st.sectionName = some (sectionAt img (headerAt img) (headerAt img).shstrndx).offset

def chosenSymtab (img : ElfImage) : Option Nat :=
  let h := headerAt img
  let isSymtab i := (sectionAt img h i).type == shtSymtab
  if h.is64 then
    ((range h.shnum).find? isSymtab).filter fun j => (sectionAt img h j).size ≤ 0xffffffff
  else if (range h.shnum).any fun i => i != h.shstrndx && (sectionAt img h i).type == shtStrtab then
    (range h.shnum).reverse.find? isSymtab
  else none

theorem chosenSymtab_lt {j : Nat} (h : chosenSymtab img = some j) : j < (headerAt img).shnum := by
  rw [chosenSymtab] at h
  split_ifs at h
  · exact mem_range.1 (mem_of_find?_eq_some (filter_eq_some_iff.1 h).1)
  · exact mem_range.1 (mem_reverse.1 (mem_of_find?_eq_some h))

def SearchInv (st : ElfSectionState) : Prop :=
  ∀ t, st.symbolShdr = some t → st.sym = t.offset ∧ st.symbolNum = t.size / symSize false

theorem elf32SearchSections_ok (h32 : h.is64 = false) (hs : SectionsOk img h) (hsize : img.size ≤ 2 ^ 32)
    (is : List Nat) (st : ElfSectionState) (his : ∀ i ∈ is, i < h.shnum) (hinv : SearchInv st) :
    ∃ st', elf32SearchSections img h is st = .ok st' ∧ SearchInv st' ∧
      st'.elfIs64 = st.elfIs64 ∧ st'.sectionName = st.sectionName ∧
      st'.symbolShdr = ((is.reverse.find? fun i => (sectionAt img h i).type == shtSymtab).map
        (sectionAt img h)).or st.symbolShdr ∧
      st'.stringShdr.isSome = (st.stringShdr.isSome ||
        is.any fun i => i != h.shstrndx && (sectionAt img h i).type == shtStrtab) := by
  induction is generalizing st with
  | nil => exact ⟨st, rfl, hinv, rfl, rfl, rfl, (Bool.or_false _).symm⟩
  | cons i is ih =>
    have hi := his i mem_cons_self
    obtain ⟨st₁, hst₁, hinv₁, h64₁, hname₁, hsymbol₁, hstring₁⟩ : ∃ st₁,
        elf32SearchSections img h (i :: is) st = elf32SearchSections img h is st₁ ∧ SearchInv st₁ ∧
        st₁.elfIs64 = st.elfIs64 ∧ st₁.sectionName = st.sectionName ∧
        st₁.symbolShdr = (([i].find? fun i => (sectionAt img h i).type == shtSymtab).map
          (sectionAt img h)).or st.symbolShdr ∧
        st₁.stringShdr.isSome = (st.stringShdr.isSome ||
          (i != h.shstrndx && (sectionAt img h i).type == shtStrtab)) := by
      rw [elf32SearchSections, elf32SectionHeader_ok h32 hs hsize hi]
      refine ⟨_, rfl, ?_⟩
      split_ifs with hndx hsym hstr
      · have htype : (sectionAt img h i).type = shtStrtab := hndx ▸ hs.strtab.type
        exact ⟨hinv, rfl, rfl, by simp [htype], by simp [hndx]⟩
      · refine ⟨fun t ht => ?_, rfl, rfl, by simp [hsym], by simp [hsym]⟩
        cases ht
        exact ⟨rfl, rfl⟩
      · exact ⟨hinv, rfl, rfl, by simp [hstr], by simp [hstr, hndx]⟩
      · exact ⟨hinv, rfl, rfl, by simp [hsym], by simp [hstr]⟩
    obtain ⟨st', hst', hinv', h64, hname, hsymbol, hstring⟩ :=
      ih st₁ (fun j hj => his j (mem_cons_of_mem _ hj)) hinv₁
    refine ⟨st', hst₁.trans hst', hinv', h64.trans h64₁, hname.trans hname₁, ?_, ?_⟩
    · rw [hsymbol, hsymbol₁, reverse_cons, find?_append, Option.map_or, Option.or_assoc]
    · rw [hstring, hstring₁, any_cons, Bool.or_assoc]

def SymbolLoadOutcome (img : ElfImage) (result : ElfM (StdReturnType × ElfSectionState)) : Prop :=
  ∃ st, result = .ok (if (chosenSymtab img).isSome then .ok else .invalid, st) ∧
    (∀ j, chosenSymtab img = some j → SymbolsLoaded img st (sectionAt img (headerAt img) j)) ∧
    ((headerAt img).is64 = false → (headerAt img).shnum ≠ 0 →
      st.sectionName = some (sectionAt img (headerAt img) (headerAt img).shstrndx).offset)

section
variable {st : ElfSectionState} (hnames : (headerAt img).is64 = false → (headerAt img).shnum ≠ 0 →
  st.sectionName = some (sectionAt img (headerAt img) (headerAt img).shstrndx).offset)
include hnames

theorem SymbolLoadOutcome.invalid (h : chosenSymtab img = none) : SymbolLoadOutcome img (.ok (.invalid, st)) := by
  refine ⟨st, by rw [h]; rfl, fun j hj => ?_, hnames⟩
  rw [h] at hj
  cases hj

theorem SymbolLoadOutcome.ok {j : Nat} (h : chosenSymtab img = some j)
    (hl : SymbolsLoaded img st (sectionAt img (headerAt img) j)) : SymbolLoadOutcome img (.ok (.ok, st)) := by
  refine ⟨st, by rw [h]; rfl, fun j' hj' => ?_, hnames⟩
  rw [h] at hj'
  cases hj'
  exact hl

end

theorem symbolLoadOutcome_elf32 {st : ElfSectionState} (hok : ImageOk img)
    (h32 : (headerAt img).is64 = false) (hsize : img.size ≤ 2 ^ 32) (hclass : st.elfIs64 = false)
    (hnull : st.symbolShdr = none) (hnull' : st.stringShdr = none) :
    SymbolLoadOutcome img (elf32SymbolLoad img (headerAt img) st) := by
  have hchosen : chosenSymtab img = if ((range (headerAt img).shnum).any fun i =>
      i != (headerAt img).shstrndx && (sectionAt img (headerAt img) i).type == shtStrtab) = true then
      (range (headerAt img).shnum).reverse.find? fun i =>
        (sectionAt img (headerAt img) i).type == shtSymtab else none := by
    rw [chosenSymtab, if_neg (by rw [h32]; decide)]
  unfold elf32SymbolLoad
  by_cases hnum : (headerAt img).shnum = 0
  · -- without sections no symbol table is found
    simp only [hnum, Nat.not_lt_zero, if_false, bind, Except.bind, range_zero, elf32SearchSections,
      hnull]
    exact .invalid (fun _ h => absurd hnum h) (by rw [hchosen, hnum]; rfl)
  have hs := hok.sections hnum
  rw [if_pos hs.strndx, elf32SectionHeader_ok h32 hs hsize hs.strndx]
  obtain ⟨st₁, hsearch, hinv, hclass₁, hnames, hsymbol, hstring⟩ := elf32SearchSections_ok h32 hs hsize
    (range (headerAt img).shnum)
    { st with
      sectionName := some (sectionAt img (headerAt img) (headerAt img).shstrndx).offset }
    (fun i hi => mem_range.1 hi) (fun t ht => by rw [hnull] at ht; cases ht)
  change SymbolLoadOutcome img (elf32SearchSections img _ _ _ >>= _)
  rw [hsearch]
  dsimp only [bind, Except.bind]
  dsimp only at hsymbol hstring
  rw [hnull, or_none] at hsymbol
  rw [hnull', isSome_none, Bool.false_or] at hstring
  rw [← hstring] at hchosen
  cases hstr : st₁.stringShdr with
  | none =>
    rw [hstr] at hchosen
    cases st₁.symbolShdr <;> exact .invalid (fun _ _ => hnames) hchosen
  | some s =>
    rw [hstr, isSome_some, if_pos rfl] at hchosen
    rw [← hchosen] at hsymbol
    cases hfind : chosenSymtab img with
    | none =>
      rw [hfind] at hsymbol
      rw [hsymbol]
      exact .invalid (fun _ _ => hnames) hfind
    | some j =>
      rw [hfind] at hsymbol hchosen
      have hj : j < (headerAt img).shnum :=
        mem_range.1 (mem_reverse.1 (mem_of_find?_eq_some hchosen.symm))
      have htype : (sectionAt img (headerAt img) j).type = shtSymtab := by
        simpa using find?_some hchosen.symm
      obtain ⟨hoff, hcount⟩ := hinv _ hsymbol
      rw [hsymbol]
      change SymbolLoadOutcome img (elf32SectionHeader img _ _ >>= _)
      rw [elf32SectionHeader_ok h32 hs hsize (hs.symtab j hj htype).link]
      have h1 : st₁.elfIs64 = false := hclass₁.trans hclass
      exact .ok (fun _ _ => hnames) hfind ⟨hs, h1.trans h32.symm, ⟨j, hj, rfl⟩, htype,
        by simp [h1, hoff], by simp [elfsymGetSymbolNum, h1, hcount], by simp [h1],
        fun _ => hnames⟩

theorem SymbolTableOk.entsize_eq {t : ElfSectionView} (ht : SymbolTableOk img h t) :
    (if t.entsize ≠ 0 then t.entsize else symSize h.is64) = symSize h.is64 := by
  rcases ht.entsize with h0 | h0
  · rw [if_neg (not_not.2 h0)]
  · rw [h0, ite_self]

theorem symbolLoadOutcome_elf64 {st : ElfSectionState} (hok : ImageOk img)
    (h64 : (headerAt img).is64 = true) (hclass : st.elfIs64 = true) :
    SymbolLoadOutcome img (elf64SymbolLoad img (headerAt img) st) := by
  have hnames : ∀ st' : ElfSectionState, (headerAt img).is64 = false → (headerAt img).shnum ≠ 0 →
      st'.sectionName = some (sectionAt img (headerAt img) (headerAt img).shstrndx).offset :=
    fun _ h0 => absurd (h0.symm.trans h64) nofun
  have hchosen : chosenSymtab img = ((range (headerAt img).shnum).find? fun i =>
      (sectionAt img (headerAt img) i).type == shtSymtab).filter fun j =>
        (sectionAt img (headerAt img) j).size ≤ 0xffffffff := by
    rw [chosenSymtab, if_pos h64]
  unfold elf64SymbolLoad
  by_cases hnum : (headerAt img).shnum = 0
  · rw [if_pos (.inl hnum)]
    exact .invalid (hnames st) (by rw [hchosen, hnum]; rfl)
  have hs := hok.sections hnum
  rw [if_neg (not_or.2 ⟨hnum, Nat.not_lt.2 (h64 ▸ hs.entsize)⟩),
    findSection_ok (sectionAt img (headerAt img))
      (fun i => (sectionAt img (headerAt img) i).type == shtSymtab) _
      (fun i hi => readSection_ok (mem_range.1 hi) hs.entsize hs.table) (fun i _ => rfl)]
  cases hfind : (range (headerAt img).shnum).find?
      (fun i => (sectionAt img (headerAt img) i).type == shtSymtab) with
  | none => exact .invalid (hnames st) (by rw [hchosen, hfind]; rfl)
  | some j =>
    have hj : j < (headerAt img).shnum := mem_range.1 (mem_of_find?_eq_some hfind)
    have htype : (sectionAt img (headerAt img) j).type = shtSymtab := by simpa using find?_some hfind
    have ht := hs.symtab j hj htype
    rw [hfind, filter_some] at hchosen
    change SymbolLoadOutcome img (if _ then _ else _)
    by_cases hbig : (sectionAt img (headerAt img) j).size > 0xffffffff
    · rw [if_pos (.inr hbig)]
      exact .invalid (hnames st) (by rw [hchosen, if_neg (by simpa using hbig)])
    rw [if_neg (not_or.2 ⟨Nat.not_le.2 ht.link, hbig⟩), readSection_ok ht.link hs.entsize hs.table]
    change SymbolLoadOutcome img (if _ then _ else _)
    rw [if_neg (not_not.2 ht.strtab.type)]
    have hentsize := ht.entsize_eq
    rw [h64] at hentsize
    have hcount : u32 ((sectionAt img (headerAt img) j).size / symSize true) =
        (sectionAt img (headerAt img) j).size / symSize true :=
      Nat.mod_eq_of_lt (Nat.lt_of_le_of_lt (Nat.div_le_self _ _) (by omega))
    refine .ok (hnames _) (hchosen.trans (if_pos (by simpa using hbig))) ⟨hs, hclass.trans h64.symm,
      ⟨j, hj, rfl⟩, htype, by simp [hclass], ?_, by simp [hclass], fun h0 => ?_⟩
    · simp only [elfsymGetSymbolNum, hclass, if_true, hentsize, hcount]
    · simp [hclass] at h0

theorem symbolLoadOutcome (hok : ImageOk img) (hsize : img.Addressable) :
    SymbolLoadOutcome img (elfSymbolLoad img .init) := by
  unfold elfSymbolLoad
  rw [readEhdr_ok hok.header]
  change SymbolLoadOutcome img (if (headerAt img).is64 = true then _ else _)
  cases h64 : (headerAt img).is64 with
  | true =>
    rw [if_pos rfl]
    exact symbolLoadOutcome_elf64 hok h64 rfl
  | false =>
    rw [if_neg nofun]
    exact symbolLoadOutcome_elf32 hok h64 (hsize h64) rfl rfl rfl

theorem symbolsLoaded_of_load {st : ElfSectionState} (hok : ImageOk img)
    (hsize : img.Addressable)
    (hload : elfSymbolLoad img .init = .ok (.ok, st)) :
    ∃ j < (headerAt img).shnum, chosenSymtab img = some j ∧
      SymbolsLoaded img st (sectionAt img (headerAt img) j) := by
  obtain ⟨st', hst, hloaded, -⟩ := symbolLoadOutcome hok hsize
  rw [hload] at hst
  cases hchosen : chosenSymtab img with
  | none => rw [hchosen] at hst; cases hst
  | some j =>
    obtain rfl := (Prod.mk.inj (Except.ok.inj hst)).2
    exact ⟨j, chosenSymtab_lt hchosen, rfl, hloaded j hchosen⟩

/-! ## A small image -/

def elf32ShdrBytes (s : ElfSectionView) : List UInt8 :=
  leBytes 4 s.name ++ leBytes 4 s.type ++ leBytes 8 0 ++ leBytes 4 s.offset ++ leBytes 4 s.size ++
    leBytes 4 s.link ++ leBytes 8 0 ++ leBytes 4 s.entsize

def debugLine : List UInt8 := [0x2e, 0x64, 0x65, 0x62, 0x75, 0x67, 0x5f, 0x6c, 0x69, 0x6e, 0x65]

def smallElf32 (type offset size : Nat) : List UInt8 :=
  elfmag ++ [elfclass32, elfdata2lsb, 1] ++ leBytes 9 0 ++
    leBytes 16 0 ++ leBytes 4 52 ++ leBytes 10 0 ++ leBytes 2 40 ++ leBytes 2 4 ++
    leBytes 2 0 ++
    elf32ShdrBytes ⟨0, shtStrtab, 212, 13, 0, 0⟩ ++ elf32ShdrBytes ⟨0, shtSymtab, 225, 16, 2, 16⟩ ++
    elf32ShdrBytes ⟨0, shtStrtab, 212, 13, 0, 0⟩ ++ elf32ShdrBytes ⟨1, type, offset, size, 0, 0⟩ ++
    [0] ++ debugLine ++ [0] ++ leBytes 4 1 ++ leBytes 12 0

def progbitsImage : ElfImage := ⟨smallElf32 1 212 13, by decide +kernel⟩

def nobitsImage : ElfImage := ⟨smallElf32 shtNobits 0xffffff00 0x100, by decide +kernel⟩

def smallElf32State : ElfSectionState where
  elfIs64 := false
  symbolShdr := some ⟨0, shtSymtab, 225, 16, 2, 16⟩
  sym := 225
  symbolNum := 1
  stringShdr := some ⟨0, shtStrtab, 212, 13, 0, 0⟩
  stringData := 212
  sectionName := some 212
  elf64Symbols := none
  elf64SymbolNum := 0
  elf64StringData := 0

theorem progbitsImage_loaded :
    elfImageCheck progbitsImage = some .ok ∧
      elfSymbolLoad progbitsImage .init = .ok (.ok, smallElf32State) := by
  decide +kernel

theorem progbitsImage_file : fileLoad (.holding progbitsImage.bytes) = .ok progbitsImage.bytes := by
  decide +kernel

/-! ## Symbols -/

section
variable {img : ElfImage} {st : ElfSectionState} {t : ElfSectionView} {index : Nat}

section
variable (hl : SymbolsLoaded img st t)
include hl

theorem SymbolsLoaded.entry (index : Nat) :
    elfsymEntry st index = t.offset + index * symSize (headerAt img).is64 := by
  have hsym := hl.symbols
  rw [elfsymEntry, ← hl.is64]
  cases h : st.elfIs64 with
  | true => simp only [h, if_true] at hsym ⊢; rw [hsym, getD_some]
  | false => simp only [h] at hsym ⊢; simp [hsym.1]

theorem SymbolsLoaded.table :
    SymbolTableOk img (headerAt img) t ∧ t.offset + t.size ≤ img.size := by
  obtain ⟨j, hj, rfl⟩ := hl.mem
  have htype := hl.type
  exact ⟨hl.sections.symtab j hj htype,
    hl.sections.contents j hj (by simp [ElfSectionView.HasContents, htype])⟩

theorem SymbolsLoaded.entry_inside (hi : index < t.size / symSize (headerAt img).is64) :
    elfsymEntry st index + symSize (headerAt img).is64 ≤ img.size := by
  have hmul := Nat.div_mul_le_self t.size (symSize (headerAt img).is64)
  rw [hl.entry]
  exact entry_le (Nat.le_refl _) hi (Nat.le_trans (Nat.add_le_add_left hmul _) hl.table.2)

theorem SymbolsLoaded.elf64_guard (h : st.elfIs64 = true) (hi : index < t.size / symSize st.elfIs64) :
    ¬ (st.elf64Symbols.isNone = true ∨ index ≥ st.elf64SymbolNum) := by
  have hsym := hl.symbols
  have hnum := hl.num
  simp only [h, if_true] at hsym
  simp only [elfsymGetSymbolNum, h, hsym, if_true, Except.ok.injEq] at hnum
  rw [h, ← hnum] at hi
  simp only [hsym, isNone_some, Bool.false_eq_true, false_or]
  exact Nat.not_le.2 hi

theorem SymbolsLoaded.elf32_guard (h : st.elfIs64 = false) :
    ¬ (st.symbolShdr.isNone = true ∨ st.stringShdr.isNone = true) := by
  have hsym := hl.symbols
  simp only [h] at hsym
  obtain ⟨-, hsymbol, hstring⟩ := hsym
  rintro (h0 | h0)
  · rw [isNone_iff_eq_none.1 h0] at hsymbol
    cases hsymbol
  · rw [isNone_iff_eq_none.1 h0] at hstring
    cases hstring

theorem SymbolsLoaded.getSymbol (W : Nat) (hi : index < t.size / symSize (headerAt img).is64) :
    elfsymGetSymbol W img st index =
      let s := symbolAt img (headerAt img) t index
      .ok (if st.elfIs64 = true ∧ s.size > 0xffffffff then .error .invalid
        else .ok ⟨(sectionAt img (headerAt img) t.link).offset + s.name, s.size, BitVec.ofNat W s.value,
          elfSymbolEnumType s.info⟩) := by
  have hin := hl.entry_inside hi
  have hentry := hl.entry index
  have hstr := hl.strings
  rw [← hl.is64] at hin hentry hi
  unfold elfsymGetSymbol symbolAt
  rw [← hl.is64, ← hentry, ← hstr]
  cases h : st.elfIs64 with
  | true =>
    simp only [h, if_true, true_and] at hin ⊢
    rw [if_neg (hl.elf64_guard h hi), ElfImage.memcpy_ok hin, apply_ite Except.ok]
    rfl
  | false =>
    simp only [h] at hin ⊢
    rw [if_neg (by decide), if_neg (hl.elf32_guard h), ElfImage.memcpy_ok hin]
    rfl

theorem SymbolsLoaded.names_end (hi : index < t.size / symSize (headerAt img).is64) :
    let strtab := sectionAt img (headerAt img) t.link
    strtab.offset + strtab.size ≤ img.size ∧
      ∃ q, strtab.offset + (symbolAt img (headerAt img) t index).name ≤ q ∧
        q < strtab.offset + strtab.size ∧ img.bytes[q]? = some 0 := by
  have ht := hl.table.1
  have hin := hl.sections.strtab_inside ht.link ht.strtab.type
  have hlt := ht.names index hi
  have hsize := ht.strtab.size
  exact ⟨hin, _, by omega, by omega, ht.strtab.getElem?_last hin⟩

end

end

/-- **Symbols are read inside the file.** After the first successful load of an accepted image file there
is a symbol table of the image, the chosen one, such that every symbol below the reported number has
its entry inside the file, reading it gives a result, and the name of the result is in the string
table which that symbol table links to, with the zero byte that ends it. -/
theorem elfsym_get_symbol_inside {host : FileHost} {img : ElfImage} {st : ElfSectionState} {num : Nat} (W : Nat)
    (hfile : fileLoad host = .ok img.bytes) (hcheck : elfImageCheck img = some .ok)
    (hload : elfSymbolLoad img .init = .ok (.ok, st)) (hnum : elfsymGetSymbolNum st = .ok num) :
    ∃ j < (headerAt img).shnum, (sectionAt img (headerAt img) j).type = shtSymtab ∧
      ∀ index < num,
        elfsymEntry st index =
          (sectionAt img (headerAt img) j).offset + index * symSize (headerAt img).is64 ∧
        elfsymEntry st index + symSize (headerAt img).is64 ≤ img.size ∧
        ∃ r, elfsymGetSymbol W img st index = .ok r ∧ ∀ symbol, r = .ok symbol →
          let strtab := sectionAt img (headerAt img) (sectionAt img (headerAt img) j).link
          strtab.offset + strtab.size ≤ img.size ∧ strtab.offset ≤ symbol.name ∧
          ∃ q, symbol.name ≤ q ∧ q < strtab.offset + strtab.size ∧ img.bytes[q]? = some 0 := by
  obtain ⟨j, hj, -, hl⟩ := symbolsLoaded_of_load (elfImageCheck_eq_ok.1 hcheck)
    (ElfImage.addressable_of_fileLoad hfile) hload
  refine ⟨j, hj, hl.type, fun index hi => ?_⟩
  cases hl.num.symm.trans hnum
  rw [hl.is64] at hi
  refine ⟨hl.entry index, hl.entry_inside hi, ?_⟩
  refine ⟨_, hl.getSymbol W hi, fun symbol hsymbol => ?_⟩
  split_ifs at hsymbol
  cases hsymbol
  exact ⟨(hl.names_end hi).1, Nat.le_add_right _ _, (hl.names_end hi).2⟩

theorem elfsym_get_symbol_inside_small :
    ∃ j < (headerAt progbitsImage).shnum,
      (sectionAt progbitsImage (headerAt progbitsImage) j).type = shtSymtab ∧
      ∀ index < 1,
        elfsymEntry smallElf32State index =
          (sectionAt progbitsImage (headerAt progbitsImage) j).offset +
            index * symSize (headerAt progbitsImage).is64 ∧
        elfsymEntry smallElf32State index + symSize (headerAt progbitsImage).is64 ≤
          progbitsImage.size ∧
        ∃ r, elfsymGetSymbol 32 progbitsImage smallElf32State index = .ok r ∧
          ∀ symbol, r = .ok symbol →
            let strtab := sectionAt progbitsImage (headerAt progbitsImage)
              (sectionAt progbitsImage (headerAt progbitsImage) j).link
            strtab.offset + strtab.size ≤ progbitsImage.size ∧ strtab.offset ≤ symbol.name ∧
            ∃ q, symbol.name ≤ q ∧ q < strtab.offset + strtab.size ∧
              progbitsImage.bytes[q]? = some 0 :=
  elfsym_get_symbol_inside 32 progbitsImage_file progbitsImage_loaded.1 progbitsImage_loaded.2 rfl

/-! ## Sections -/

def sectionMatches (img : ElfImage) (h : ElfHeaderView) (key : List UInt8) (i : Nat) : Bool :=
  (h.is64 || i != h.shstrndx) && sectionNameAt img h i == some key

def sectionResult (h : ElfHeaderView) : Option ElfSectionView → Except StdReturnType (Nat × Nat)
  | none => .error .noent
  | some s =>
    if h.is64 = true ∧ s.size > 0xffffffff then .error .invalid else .ok (s.offset, s.size)

theorem elfSectionGet_eq {st : ElfSectionState} (hok : ImageOk img)
    (hsize : img.Addressable)
    (hnames : (headerAt img).is64 = false → (headerAt img).shnum ≠ 0 →
      st.sectionName = some (sectionAt img (headerAt img) (headerAt img).shstrndx).offset)
    (key : List UInt8) :
    elfSectionGet img st key = .ok (sectionResult (headerAt img)
      (((range (headerAt img).shnum).find? (sectionMatches img (headerAt img) key)).map
        (sectionAt img (headerAt img)))) := by
  unfold elfSectionGet
  rw [readEhdr_ok hok.header]
  change (if (headerAt img).is64 = true then _ else _) = _
  by_cases hnum : (headerAt img).shnum = 0
  · simp only [hnum, ge_iff_le, Nat.zero_le, if_true, range_zero, findSection]
    split_ifs <;> rfl
  have hs := hok.sections hnum
  cases h64 : (headerAt img).is64 with
  | true =>
    rw [if_pos rfl, if_neg (Nat.not_le.2 hs.strndx), readSection_ok hs.strndx hs.entsize hs.table]
    change (findSection _ _ _ >>= _) = _
    rw [findSection_ok (sectionAt img (headerAt img))
      (sectionMatches img (headerAt img) key) _
      (fun i hi => readSection_ok (mem_range.1 hi) hs.entsize hs.table)
      (fun i hi => by
        rw [sectionMatches, h64, Bool.true_or, Bool.true_and]
        exact hs.cstr_beq (mem_range.1 hi) key)]
    cases (range (headerAt img).shnum).find? (sectionMatches img (headerAt img) key) with
    | none => rfl
    | some i =>
      simp only [map_some, sectionResult, h64, true_and]
      change (if _ then _ else _) = _
      split_ifs <;> rfl
  | false =>
    rw [if_neg (by decide), findSection_ok (sectionAt img (headerAt img))
      (sectionMatches img (headerAt img) key) _
      (fun i hi => elf32SectionHeader_ok h64 hs (hsize h64) (mem_range.1 hi))
      (fun i hi => by
        rw [hnames h64 hnum, sectionMatches, h64, Bool.false_or]
        by_cases hndx : i = (headerAt img).shstrndx
        · rw [if_pos hndx, hndx, bne_self_eq_false, Bool.false_and]
        · rw [if_neg hndx, bne_iff_ne.2 hndx, Bool.true_and]
          exact hs.cstr_beq (mem_range.1 hi) key)]
    cases (range (headerAt img).shnum).find? (sectionMatches img (headerAt img) key) with
    | none => rfl
    | some i => simp [sectionResult, h64]; rfl

theorem find?_sectionMatches_eq_some {key : List UInt8} {n i : Nat} :
    (range n).find? (sectionMatches img h key) = some i ↔
      i < n ∧ sectionMatches img h key i = true ∧ ∀ j < i, sectionMatches img h key j = false := by
  simp only [find?_range_eq_some, mem_range, Bool.not_eq_eq_eq_not, Bool.not_true]
  tauto

/-- **When a section is returned inside the file.** After the first successful load of an accepted
image, what the section reader returns for a name lies inside the file exactly when the first section
of that name has contents, or its range lies inside the file anyway, or its size is refused. -/
theorem elf_section_get_inside_iff {img : ElfImage} {st : ElfSectionState} (key : List UInt8)
    (hcheck : elfImageCheck img = some .ok)
    (hsize : img.Addressable)
    (hload : elfSymbolLoad img .init = .ok (.ok, st)) :
    (∀ off size, elfSectionGet img st key = .ok (.ok (off, size)) → off + size ≤ img.size) ↔
      ∀ i < (headerAt img).shnum, sectionMatches img (headerAt img) key i = true →
        (∀ j < i, sectionMatches img (headerAt img) key j = false) →
        (sectionAt img (headerAt img) i).HasContents ∨
        (sectionAt img (headerAt img) i).offset + (sectionAt img (headerAt img) i).size ≤ img.size ∨
        (headerAt img).is64 = true ∧ (sectionAt img (headerAt img) i).size > 0xffffffff := by
  have hok := elfImageCheck_eq_ok.1 hcheck
  obtain ⟨j, -, -, hl⟩ := symbolsLoaded_of_load hok hsize hload
  rw [elfSectionGet_eq hok hsize (fun h32 _ => hl.names (hl.is64.trans h32)) key]
  constructor
  · intro h i hi hmatch hlow
    rw [find?_sectionMatches_eq_some.2 ⟨hi, hmatch, hlow⟩] at h
    by_cases hbig : (headerAt img).is64 = true ∧ (sectionAt img (headerAt img) i).size > 0xffffffff
    · exact .inr (.inr hbig)
    · refine .inr (.inl (h _ _ ?_))
      simp only [map_some, sectionResult, if_neg hbig]
  · intro h off size hget
    cases hf : (range (headerAt img).shnum).find? (sectionMatches img (headerAt img) key) with
    | none => rw [hf] at hget; cases hget
    | some i =>
      obtain ⟨hi, hmatch, hlow⟩ := find?_sectionMatches_eq_some.1 hf
      rw [hf, map_some, sectionResult] at hget
      split_ifs at hget with hbig
      · cases hget
      · cases hget
        rcases h i hi hmatch hlow with hc | hin | hbig'
        · exact hl.sections.contents i hi hc
        · exact hin
        · exact absurd hbig' hbig

theorem elf_section_get_inside_small :
    elfSectionGet progbitsImage smallElf32State debugLine = .ok (.ok (212, 13)) ∧
      212 + 13 ≤ progbitsImage.size := by
  have hget : elfSectionGet progbitsImage smallElf32State debugLine = .ok (.ok (212, 13)) := by
    decide +kernel
  have hin : ∀ i < (headerAt progbitsImage).shnum,
      (sectionAt progbitsImage (headerAt progbitsImage) i).offset +
        (sectionAt progbitsImage (headerAt progbitsImage) i).size ≤ progbitsImage.size := by
    decide +kernel
  have hsize := ElfImage.addressable_of_fileLoad progbitsImage_file
  exact ⟨hget, (elf_section_get_inside_iff debugLine progbitsImage_loaded.1 hsize
    progbitsImage_loaded.2).2 (fun i hi _ _ => .inr (.inl (hin i hi))) _ _ hget⟩

/-- An accepted and loaded image whose `.debug_line` is returned outside the file. -/
theorem elf_section_get_outside :
    elfImageCheck nobitsImage = some .ok ∧
      elfSymbolLoad nobitsImage .init = .ok (.ok, smallElf32State) ∧
      elfSectionGet nobitsImage smallElf32State debugLine = .ok (.ok (0xffffff00, 0x100)) ∧
      ¬ 0xffffff00 + 0x100 ≤ nobitsImage.size := by
  decide +kernel

end Athrill
