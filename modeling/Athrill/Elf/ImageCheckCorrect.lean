import Athrill.Elf.ImageCheck

/-!
# What the checker of ELF images accepts

`ImageOk` says over unbounded integers what an acceptable image is. Main result: `elf_image_check_correct`.
-/

namespace Athrill

open Bytes Checker List Yields

/-! ## Acceptable images -/

def ElfImage.classByte (img : ElfImage) : UInt8 := img.bytes.getD eiClass 0

def headerAt (img : ElfImage) : ElfHeaderView :=
  if img.classByte = elfclass64 then elf64Ehdr (slice img.bytes 0 (ehdrSize true))
  else elf32Ehdr (slice img.bytes 0 (ehdrSize false))

structure HeaderOk (img : ElfImage) : Prop where
  ident : eiNident ≤ img.size
  magic : slice img.bytes 0 4 = elfmag
  data : img.bytes.getD eiData 0 = elfdata2lsb
  cls : img.classByte = elfclass32 ∧ ehdrSize false ≤ img.size ∨
    img.classByte = elfclass64 ∧ ehdrSize true ≤ img.size

def programAt (img : ElfImage) (h : ElfHeaderView) (i : Nat) : ElfProgramView :=
  phdr h.is64 (slice img.bytes (h.phoff + i * h.phentsize) (phdrSize h.is64))

structure ProgramsOk (img : ElfImage) (h : ElfHeaderView) : Prop where
  entsize : phdrSize h.is64 ≤ h.phentsize
  table : h.phoff + h.phnum * h.phentsize ≤ img.size
  load : ∀ i < h.phnum, (programAt img h i).type = ptLoad →
    (programAt img h i).offset + (programAt img h i).filesz ≤ img.size ∧
    (programAt img h i).filesz ≤ (programAt img h i).memsz

def sectionAt (img : ElfImage) (h : ElfHeaderView) (i : Nat) : ElfSectionView :=
  shdr h.is64 (slice img.bytes (h.shoff + i * h.shentsize) (shdrSize h.is64))

def symbolAt (img : ElfImage) (h : ElfHeaderView) (symtab : ElfSectionView) (i : Nat) :
    ElfSymView :=
  sym h.is64 (slice img.bytes (symtab.offset + i * symSize h.is64) (symSize h.is64))

structure StringTableOk (img : ElfImage) (s : ElfSectionView) : Prop where
  type : s.type = shtStrtab
  size : s.size ≠ 0
  last : img.bytes.getD (s.offset + s.size - 1) 0 = 0

structure SymbolTableOk (img : ElfImage) (h : ElfHeaderView) (symtab : ElfSectionView) : Prop where
  entsize : symtab.entsize = 0 ∨ symtab.entsize = symSize h.is64
  link : symtab.link < h.shnum
  strtab : StringTableOk img (sectionAt img h symtab.link)
  names : ∀ i < symtab.size / symSize h.is64,
    (symbolAt img h symtab i).name < (sectionAt img h symtab.link).size

def ElfSectionView.HasContents (s : ElfSectionView) : Prop := ¬ (s.type = shtNull ∨ s.type = shtNobits)

structure SectionsOk (img : ElfImage) (h : ElfHeaderView) : Prop where
  entsize : shdrSize h.is64 ≤ h.shentsize
  table : h.shoff + h.shnum * h.shentsize ≤ img.size
  contents : ∀ i < h.shnum, (sectionAt img h i).HasContents →
    (sectionAt img h i).offset + (sectionAt img h i).size ≤ img.size
  strndx : h.shstrndx < h.shnum
  strtab : StringTableOk img (sectionAt img h h.shstrndx)
  names : ∀ i < h.shnum, (sectionAt img h i).name < (sectionAt img h h.shstrndx).size
  symtab : ∀ i < h.shnum, (sectionAt img h i).type = shtSymtab →
    SymbolTableOk img h (sectionAt img h i)

/-- The tables of the image, and what they name, are inside the file. -/
structure ImageOk (img : ElfImage) : Prop where
  header : HeaderOk img
  programs : (headerAt img).phnum ≠ 0 → ProgramsOk img (headerAt img)
  sections : (headerAt img).shnum ≠ 0 → SectionsOk img (headerAt img)

/-! ## The range tests -/

theorem rangeIsInside_iff (offset size elfSize : Nat) :
    rangeIsInside offset size elfSize = true ↔ offset + size ≤ elfSize := by
  unfold rangeIsInside
  split_ifs with h
  · simp only [false_iff]; omega
  · simp only [decide_eq_true_eq]; omega

theorem u64_of_le (img : ElfImage) {n : Nat} (h : n ≤ img.size) : u64 n = n :=
  Nat.mod_eq_of_lt (Nat.lt_of_le_of_lt h img.size_lt)

theorem tableIsInside_iff (img : ElfImage) {offset count entrySize : Nat} (hcount : count ≠ 0) :
    tableIsInside offset count entrySize img.size = true ↔
      offset + count * entrySize ≤ img.size := by
  unfold tableIsInside
  rw [if_neg hcount]
  have hdiv : entrySize > img.size / count ↔ img.size < count * entrySize := by
    rw [gt_iff_lt, Nat.div_lt_iff_lt_mul (Nat.pos_of_ne_zero hcount), Nat.mul_comm]
  split_ifs with h
  · rw [hdiv] at h
    simp only [false_iff]
    omega
  · rw [hdiv] at h
    rw [u64_of_le img (Nat.not_lt.1 h), rangeIsInside_iff]

theorem entry_le {off n size entsize i len : Nat} (hsize : size ≤ entsize) (hi : i < n)
    (h : off + n * entsize ≤ len) : off + i * entsize + size ≤ len := by
  have : i * entsize + entsize ≤ n * entsize := by
    rw [← Nat.succ_mul]
    exact Nat.mul_le_mul_right _ hi
  omega

/-! ## The reads -/

variable {img : ElfImage} {h : ElfHeaderView}

theorem readProgram_ok {i : Nat} (hi : i < h.phnum)
    (hsize : phdrSize h.is64 ≤ h.phentsize) (htable : h.phoff + h.phnum * h.phentsize ≤ img.size) :
    readProgram img h i = .ok (programAt img h i) := by
  have hentry := entry_le hsize hi htable
  unfold readProgram
  rw [u64_of_le img (by omega), ElfImage.memcpy_ok hentry]
  rfl

theorem readSection_ok {i : Nat} (hi : i < h.shnum)
    (hsize : shdrSize h.is64 ≤ h.shentsize) (htable : h.shoff + h.shnum * h.shentsize ≤ img.size) :
    readSection img h i = .ok (sectionAt img h i) := by
  have hentry := entry_le hsize hi htable
  unfold readSection
  rw [u64_of_le img (by omega), ElfImage.memcpy_ok hentry]
  rfl

theorem readSymbolName_ok {symtab : ElfSectionView} {i : Nat}
    (hi : i < symtab.size / symSize h.is64) (hin : symtab.offset + symtab.size ≤ img.size) :
    readSymbolName img h (u64 (symtab.offset + u64 (i * symSize h.is64))) =
      .ok (symbolAt img h symtab i).name := by
  have hmul : symtab.size / symSize h.is64 * symSize h.is64 ≤ symtab.size :=
    Nat.div_mul_le_self _ _
  have hentry : symtab.offset + i * symSize h.is64 + symSize h.is64 ≤ img.size :=
    entry_le (Nat.le_refl _) hi (by omega)
  unfold readSymbolName
  rw [u64_of_le (n := i * symSize h.is64) img (by omega),
    u64_of_le img (by omega), ElfImage.memcpy_ok hentry]
  rfl

/-! ## The parts of the checker -/

theorem readClass_yields {is64 : Bool} {reason : ElfInvalid} {view : List UInt8 → ElfHeaderView} :
    Yields
      (do
        reject (img.size < ehdrSize is64) reason
        let ehdr ← img.memcpy 0 (ehdrSize is64)
        .ok (view ehdr) : ElfM ElfHeaderView)
      (ehdrSize is64 ≤ img.size) (view (slice img.bytes 0 (ehdrSize is64))) := by
  refine (reject.bind (Q := True) fun hsize => ?_).congr (by simp)
  have hin : 0 + ehdrSize is64 ≤ img.size := by omega
  exact .read (ElfImage.memcpy_ok hin) (.of_eq rfl)

theorem readHeader_yields (img : ElfImage) :
    Yields (readHeader img) (HeaderOk img) (headerAt img) := by
  have hcls : Yields
      (if img.classByte = elfclass32 then do
        reject (img.size < ehdrSize false) ⟨"file is shorter than the ELF32 header", img.size⟩
        let ehdr ← img.memcpy 0 (ehdrSize false)
        .ok (elf32Ehdr ehdr)
      else if img.classByte = elfclass64 then do
        reject (img.size < ehdrSize true) ⟨"file is shorter than the ELF64 header", img.size⟩
        let ehdr ← img.memcpy 0 (ehdrSize true)
        .ok (elf64Ehdr ehdr)
      else .error (.rejected ⟨"unknown ELF class", img.classByte.toNat⟩) : ElfM ElfHeaderView)
      (img.classByte = elfclass32 ∧ ehdrSize false ≤ img.size ∨
        img.classByte = elfclass64 ∧ ehdrSize true ≤ img.size) (headerAt img) := by
    unfold headerAt
    by_cases h32 : img.classByte = elfclass32
    · have hne : ¬ img.classByte = elfclass64 := by rw [h32]; decide
      rw [if_pos h32, if_neg hne]
      exact readClass_yields.congr
        ⟨fun h => .inl ⟨h32, h⟩, fun h => h.elim And.right fun h' => absurd h'.1 hne⟩
    rw [if_neg h32]
    by_cases h64 : img.classByte = elfclass64
    · rw [if_pos h64, if_pos h64]
      exact readClass_yields.congr
        ⟨fun h => .inr ⟨h64, h⟩, fun h => h.elim (fun h' => absurd h'.1 h32) And.right⟩
    · rw [if_neg h64]
      exact ⟨fun h => by simp [h32, h64] at h, fun _ => ⟨_, rfl⟩⟩
  refine (reject.bind fun hident => ?_).congr
    (P := ¬ img.size < eiNident ∧ ¬ slice img.bytes 0 4 ≠ elfmag ∧
      ¬ img.bytes.getD eiData 0 ≠ elfdata2lsb ∧
      (img.classByte = elfclass32 ∧ ehdrSize false ≤ img.size ∨
        img.classByte = elfclass64 ∧ ehdrSize true ≤ img.size)) ?_
  · have h16 : 16 ≤ img.size := Nat.not_lt.1 hident
    refine .read (ElfImage.memcpy_ok (by omega)) (reject.bind fun _ => ?_)
    refine .read (ElfImage.byte_ok (Nat.lt_of_lt_of_le (by decide) h16))
      (reject.bind fun _ => ?_)
    exact .read (ElfImage.byte_ok (Nat.lt_of_lt_of_le (by decide) h16)) hcls
  · simp only [Nat.not_lt, not_not, ne_eq]
    exact ⟨fun ⟨h1, h2, h3, h4⟩ => ⟨h1, h2, h3, h4⟩, fun ⟨h1, h2, h3, h4⟩ => ⟨h1, h2, h3, h4⟩⟩

theorem checkPrograms_yields (img : ElfImage) (h : ElfHeaderView) :
    Yields (checkPrograms img h) (h.phnum ≠ 0 → ProgramsOk img h) ⟨⟩ := by
  refine skip fun hnum => ?_
  refine (reject.bind fun hsize => reject.bind fun htable => ?_).congr
    (P := ¬ h.phentsize < phdrSize h.is64 ∧
      ¬ tableIsInside h.phoff h.phnum h.phentsize img.size = false ∧
      ∀ i ∈ range h.phnum, ¬ (programAt img h i).type ≠ ptLoad →
        ¬ rangeIsInside (programAt img h i).offset (programAt img h i).filesz img.size = false ∧
        ¬ (programAt img h i).filesz > (programAt img h i).memsz) ?_
  · simp only [Bool.not_eq_false, tableIsInside_iff img hnum] at htable
    refine forM _ fun i hi => ?_
    refine .read (readProgram_ok (mem_range.1 hi) (by omega) htable) ?_
    exact skip fun _ => reject.bind fun _ => reject
  · simp only [Nat.not_lt, Bool.not_eq_false, tableIsInside_iff img hnum, rangeIsInside_iff,
      mem_range, ne_eq, not_not, gt_iff_lt]
    exact ⟨fun ⟨h1, h2, h3⟩ => ⟨h1, h2, h3⟩, fun ⟨h1, h2, h3⟩ => ⟨h1, h2, h3⟩⟩

theorem stringTableIsValid_ok {s : ElfSectionView} (hin : s.type = shtStrtab → s.offset + s.size ≤ img.size) :
    ∃ valid, stringTableIsValid img s = .ok valid ∧ (valid = true ↔ StringTableOk img s) := by
  unfold stringTableIsValid
  by_cases htype : s.type = shtStrtab
  · rw [if_neg (not_not.2 htype)]
    by_cases hsize : s.size = 0
    · exact ⟨false, if_pos hsize, iff_of_false (by decide) fun h => h.size hsize⟩
    · have hlast : u64 (u64 (s.offset + s.size) + 2 ^ 64 - 1) = s.offset + s.size - 1 := by
        rw [u64_of_le img (hin htype)]
        have := hin htype
        have := img.size_lt
        have hlen : img.size = img.bytes.length := rfl
        simp only [u64]
        omega
      rw [if_neg hsize, hlast, ElfImage.byte_ok (by have := hin htype; omega)]
      refine ⟨_, rfl, ?_⟩
      simp only [beq_iff_eq]
      exact ⟨fun h => ⟨htype, hsize, h⟩, fun h => h.last⟩
  · exact ⟨false, if_pos htype, iff_of_false (by decide) fun h => htype h.type⟩

theorem stringTable_yields {α : Type} {s : ElfSectionView} {reason : ElfInvalid}
    {rest : ElfM α} {Q : Prop} {a : α} (hin : s.type = shtStrtab → s.offset + s.size ≤ img.size)
    (hrest : StringTableOk img s → Yields rest Q a) :
    Yields
      (do
        let valid ← stringTableIsValid img s
        reject (valid = false) reason
        rest)
      (StringTableOk img s ∧ Q) a := by
  obtain ⟨valid, hread, hvalid⟩ := stringTableIsValid_ok hin
  refine .read hread ((reject.bind fun hv => hrest ?_).congr ?_)
  · exact hvalid.1 (by simpa using hv)
  · rw [Bool.not_eq_false, hvalid]

theorem checkSymbolTable_yields {symtab : ElfSectionView}
    (hsize : shdrSize h.is64 ≤ h.shentsize) (htable : h.shoff + h.shnum * h.shentsize ≤ img.size)
    (hcontents : ∀ i < h.shnum, (sectionAt img h i).HasContents →
      (sectionAt img h i).offset + (sectionAt img h i).size ≤ img.size)
    (hin : symtab.offset + symtab.size ≤ img.size) :
    Yields (checkSymbolTable img h symtab) (SymbolTableOk img h symtab) ⟨⟩ := by
  refine (reject.bind fun _ => reject.bind fun hlink => ?_).congr
    (P := ¬ (symtab.entsize ≠ 0 ∧ symtab.entsize ≠ symSize h.is64) ∧ ¬ symtab.link ≥ h.shnum ∧
      StringTableOk img (sectionAt img h symtab.link) ∧
      ∀ i ∈ range (symtab.size / symSize h.is64),
        ¬ (symbolAt img h symtab i).name ≥ (sectionAt img h symtab.link).size) ?_
  · have hlt : symtab.link < h.shnum := Nat.not_le.1 hlink
    refine .read (readSection_ok hlt hsize htable) (stringTable_yields (fun htype => ?_) fun _ => ?_)
    · exact hcontents _ hlt (by simp [ElfSectionView.HasContents, htype])
    · exact forM _ fun i hi =>
        .read (readSymbolName_ok (mem_range.1 hi) hin) reject
  · simp only [ne_eq, not_and, not_not, ge_iff_le, Nat.not_le, mem_range]
    refine ⟨fun ⟨h1, h2, h3, h4⟩ => ⟨Decidable.or_iff_not_imp_left.2 h1, h2, h3, h4⟩,
      fun ⟨h1, h2, h3, h4⟩ => ⟨Decidable.or_iff_not_imp_left.1 h1, h2, h3, h4⟩⟩

theorem checkSections_yields (img : ElfImage) (h : ElfHeaderView) :
    Yields (checkSections img h) (h.shnum ≠ 0 → SectionsOk img h) ⟨⟩ := by
  refine skip fun hnum => ?_
  refine (reject.bind fun hsize => reject.bind fun htable => ?_).congr
    (P := ¬ h.shentsize < shdrSize h.is64 ∧
      ¬ tableIsInside h.shoff h.shnum h.shentsize img.size = false ∧
      (∀ i ∈ range h.shnum, (sectionAt img h i).HasContents →
        ¬ rangeIsInside (sectionAt img h i).offset (sectionAt img h i).size img.size = false) ∧
      ¬ h.shstrndx ≥ h.shnum ∧ StringTableOk img (sectionAt img h h.shstrndx) ∧
      ∀ i ∈ range h.shnum,
        ¬ (sectionAt img h i).name ≥ (sectionAt img h h.shstrndx).size ∧
        (¬ (sectionAt img h i).type ≠ shtSymtab → SymbolTableOk img h (sectionAt img h i))) ?_
  · simp only [Nat.not_lt] at hsize
    simp only [Bool.not_eq_false, tableIsInside_iff img hnum] at htable
    refine (forM _ fun i hi => ?_).bind fun hcontents => ?_
    · exact .read (readSection_ok (mem_range.1 hi) hsize htable)
        (skip fun _ => reject)
    -- from here on every section with contents is known to be inside the file
    have hin : ∀ i < h.shnum, (sectionAt img h i).HasContents →
        (sectionAt img h i).offset + (sectionAt img h i).size ≤ img.size := by
      intro i hi hc
      have := hcontents i (mem_range.2 hi) hc
      rwa [Bool.not_eq_false, rangeIsInside_iff] at this
    refine reject.bind fun hndx => ?_
    have hlt : h.shstrndx < h.shnum := Nat.not_le.1 hndx
    refine .read (readSection_ok hlt hsize htable) (stringTable_yields (fun htype => ?_) fun _ => ?_)
    · exact hin _ hlt (by simp [ElfSectionView.HasContents, htype])
    refine forM _ fun i hi => ?_
    have hi' := mem_range.1 hi
    refine .read (readSection_ok hi' hsize htable) (reject.bind fun _ => ?_)
    refine skip fun htype => checkSymbolTable_yields hsize htable hin (hin i hi' ?_)
    simp only [ne_eq, not_not] at htype
    simp [ElfSectionView.HasContents, htype]
  · simp only [Nat.not_lt, Bool.not_eq_false, tableIsInside_iff img hnum, rangeIsInside_iff,
      mem_range, ne_eq, not_not, ge_iff_le, Nat.not_le]
    exact ⟨fun ⟨h1, h2, h3, h4, h5, h6⟩ =>
        ⟨h1, h2, h3, h4, h5, fun i hi => (h6 i hi).1, fun i hi => (h6 i hi).2⟩,
      fun ⟨h1, h2, h3, h4, h5, h6, h7⟩ =>
        ⟨h1, h2, h3, h4, h5, fun i hi => ⟨h6 i hi, h7 i hi⟩⟩⟩

theorem checkImage_yields (img : ElfImage) : Yields (checkImage img) (ImageOk img) ⟨⟩ := by
  refine ((readHeader_yields img).bind fun _ => (checkPrograms_yields img _).bind fun _ =>
    checkSections_yields img _).congr ?_
  exact ⟨fun ⟨h1, h2, h3⟩ => ⟨h1, h2, h3⟩, fun ⟨h1, h2, h3⟩ => ⟨h1, h2, h3⟩⟩

theorem elfImageCheck_eq (img : ElfImage) :
    (ImageOk img → elfImageCheck img = some .ok) ∧
      (¬ ImageOk img → elfImageCheck img = some .invalid) := by
  unfold elfImageCheck
  constructor
  · intro hok
    rw [(checkImage_yields img).ok hok]
  · intro hbad
    obtain ⟨reason, hreason⟩ := (checkImage_yields img).rejects hbad
    rw [hreason]

theorem elfImageCheck_eq_ok : elfImageCheck img = some .ok ↔ ImageOk img := by
  refine ⟨fun h => ?_, (elfImageCheck_eq img).1⟩
  by_cases hok : ImageOk img
  · exact hok
  · rw [(elfImageCheck_eq img).2 hok] at h
    cases h

/-- **The checker decides acceptability and stays inside the file.** On every byte string it returns
OK exactly for an acceptable image, and it never reads a byte at or after the end. -/
theorem elf_image_check_correct (img : ElfImage) :
    (elfImageCheck img = some .ok ↔ ImageOk img) ∧
      (elfImageCheck img = some .invalid ↔ ¬ ImageOk img) ∧ elfImageCheck img ≠ none := by
  by_cases hok : ImageOk img
  · rw [(elfImageCheck_eq img).1 hok]
    simp [hok]
  · rw [(elfImageCheck_eq img).2 hok]
    simp [hok]

end Athrill
