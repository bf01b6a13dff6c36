import Athrill.Elf.SectionSafe

/-!
# The names of the stored symbols (`main/cpuemu.cpp`)

`cpuemu_symbol_set` stores the symbols of the image for the debugger. Main result: `cpuemu_symbol_set_iff`.
-/

namespace Athrill

open Bytes Checker List

/-- A stored symbol, with its name still a place in the image. -/
structure StoredSymbol (W : Nat) where
  index : Nat
  name : Nat
  addr : AthrillAddrType W
  size : Nat
  deriving DecidableEq, Repr

structure StoredSymbols (W : Nat) where
  gl : List (StoredSymbol W) := []
  func : List (StoredSymbol W) := []
  deriving DecidableEq, Repr

def cpuemuSymbolStore {W : Nat} (img : ElfImage) (sym : StoredSymbol W) (t : StoredSymbols W) :
    ElfSymbolEnumType → ElfM (StoredSymbols W)
  | .object => .ok { t with gl := t.gl ++ [sym] }
  | .func => .ok { t with func := t.func ++ [sym] }
  | .notype => do
    let c ← img.byte sym.name
    .ok (if c ≠ 36 then { gl := t.gl ++ [sym], func := t.func ++ [sym] } else t)
  | .nosup => .ok t

def cpuemuSymbolSetLoop (W : Nat) (img : ElfImage) (st : ElfSectionState) (nameIndex : Nat) :
    List Nat → StoredSymbols W → ElfM (StdReturnType × StoredSymbols W)
  | [], t => .ok (.ok, t)
  | i :: is, t => do
    match ← elfsymGetSymbol W img st i with
    | .error err => .ok (err, t)
    | .ok elfsym =>
      let t ← cpuemuSymbolStore img ⟨i, elfsym.name + nameIndex, elfsym.addr, elfsym.size⟩ t elfsym.type
      cpuemuSymbolSetLoop W img st nameIndex is t

def nameIndex (disableUnderscore : Nat) : Nat := if disableUnderscore ≠ 0 then 0 else 1

def cpuemuSymbolSet (W : Nat) (img : ElfImage) (st : ElfSectionState) (disableUnderscore : Nat) :
    ElfM (StdReturnType × StoredSymbols W) :=
  match elfsymGetSymbolNum st with
  | .error err => .ok (err, {})
  | .ok num => cpuemuSymbolSetLoop W img st (nameIndex disableUnderscore) (range num) {}

section
variable (img : ElfImage) (st : ElfSectionState) (strtab : ElfSectionView) (n : Nat)

def NameKept {W : Nat} (e : StoredSymbol W) : Prop :=
  strtab.offset ≤ e.name ∧
  (∃ q, e.name ≤ q ∧ q < strtab.offset + strtab.size ∧ img.bytes[q]? = some 0) ∧
  ∃ s own, elfsymGetSymbol W img st e.index = .ok (.ok s) ∧ cstrAt img.bytes s.name = some own ∧
    n ≤ own.length ∧ cstrAt img.bytes e.name = some (own.drop n)

def TablesKept {W : Nat} (t : StoredSymbols W) : Prop :=
  ∀ e, e ∈ t.gl ∨ e ∈ t.func → NameKept img st strtab n e

/-- The run returns, and what is in the two tables has the names of the image. -/
def NamesKept {W : Nat} (result : ElfM (StdReturnType × StoredSymbols W)) : Prop :=
  ∃ err t, result = .ok (err, t) ∧ TablesKept img st strtab n t

def NameFits {W : Nat} (s : ElfSymbolType W) : Prop :=
  (∃ own, cstrAt img.bytes s.name = some own ∧ n ≤ own.length) ∨ s.type = .nosup ∨
    s.type = .notype ∧ img.bytes[s.name + n]? = some 36

end

/-- The symbols with an empty name are not stored, as far as the symbols can be read. -/
def EmptySkipped (W : Nat) (img : ElfImage) (st : ElfSectionState) (num : Nat) : Prop :=
  ∀ i < num, (∀ j < i, ∃ s, elfsymGetSymbol W img st j = .ok (.ok s)) →
    ∀ s, elfsymGetSymbol W img st i = .ok (.ok s) → cstrAt img.bytes s.name = some [] →
      s.type = .nosup ∨ s.type = .notype ∧ img.bytes[s.name + 1]? = some 36

theorem cstrAt_eq_some_iff {bytes : List UInt8} {off : Nat} {name : List UInt8} :
    cstrAt bytes off = some name ↔ 0 ∉ name ∧ ∃ rest, bytes.drop off = name ++ 0 :: rest := by
  have hsplit : ∀ l : List UInt8, 0 ∈ l → ∃ rest, l = l.takeWhile (· ≠ 0) ++ 0 :: rest := by
    intro l hl
    induction l with
    | nil => cases hl
    | cons b l ih =>
      by_cases hb : b = 0
      · exact ⟨l, by simp [hb]⟩
      · obtain ⟨rest, hrest⟩ := ih ((mem_cons.1 hl).resolve_left (Ne.symm hb))
        exact ⟨rest, by rw [takeWhile_cons_of_pos (by simpa using hb), cons_append, ← hrest]⟩
  rw [cstrAt]
  constructor
  · intro h
    split_ifs at h with hmem
    cases h
    exact ⟨fun h => (CString.ofBytes _).ne_zero 0 h rfl, hsplit _ hmem⟩
  · rintro ⟨hname, rest, hrest⟩
    have hall : ∀ b ∈ name, decide (b ≠ 0) = true := fun b hb => decide_eq_true fun h => hname (h ▸ hb)
    rw [hrest, if_pos (by simp), takeWhile_append_of_pos hall, takeWhile_cons_of_neg (by simp),
      append_nil]

section
variable {W : Nat} {img : ElfImage} {st : ElfSectionState} {t : ElfSectionView} {n : Nat}

theorem cstrAt_drop {off : Nat} {own : List UInt8} (h : cstrAt img.bytes off = some own) (hn : n ≤ own.length) :
    cstrAt img.bytes (off + n) = some (own.drop n) ∧ ∃ c, img.bytes[off + n]? = some c := by
  obtain ⟨hzero, rest, hrest⟩ := cstrAt_eq_some_iff.1 h
  have hdrop : img.bytes.drop (off + n) = own.drop n ++ 0 :: rest := by
    rw [← drop_drop, hrest, drop_append_of_le_length hn]
  refine ⟨cstrAt_eq_some_iff.2 ⟨fun h => hzero (mem_of_mem_drop h), rest, hdrop⟩, ?_⟩
  rw [← Nat.add_zero (off + n), ← getElem?_drop, hdrop]
  cases own.drop n <;> exact ⟨_, rfl⟩

theorem cstrAt_end {off q : Nat} {own : List UInt8} (h : cstrAt img.bytes off = some own) (hq : off ≤ q)
    (hzero : img.bytes[q]? = some 0) : off + own.length ≤ q ∧ img.bytes[off + own.length]? = some 0 := by
  obtain ⟨hown, rest, hrest⟩ := cstrAt_eq_some_iff.1 h
  constructor
  · by_contra hlt
    have hget : (img.bytes.drop off)[q - off]? = some 0 := by
      rw [getElem?_drop, Nat.add_sub_cancel' hq, hzero]
    rw [hrest, getElem?_append_left (by omega)] at hget
    exact hown (mem_of_getElem? hget)
  · rw [← getElem?_drop, hrest, getElem?_append_right le_rfl, Nat.sub_self]
    rfl

section
variable (hl : SymbolsLoaded img st t) {i : Nat} {s : ElfSymbolType W}
  (hi : i < t.size / symSize (headerAt img).is64) (hs : elfsymGetSymbol W img st i = .ok (.ok s))
include hl hi hs

theorem SymbolsLoaded.name_inside :
    let strtab := sectionAt img (headerAt img) t.link
    strtab.offset ≤ s.name ∧
      ∃ q, s.name ≤ q ∧ q < strtab.offset + strtab.size ∧ img.bytes[q]? = some 0 := by
  rw [hl.getSymbol W hi] at hs
  dsimp only at hs
  split_ifs at hs
  · cases hs
  · cases hs
    exact ⟨Nat.le_add_right _ _, (hl.names_end hi).2⟩

theorem SymbolsLoaded.nameKept_iff :
    NameKept img st (sectionAt img (headerAt img) t.link) n ⟨i, s.name + n, s.addr, s.size⟩ ↔
      ∃ own, cstrAt img.bytes s.name = some own ∧ n ≤ own.length := by
  obtain ⟨hoff, q, hq, hq', hzero⟩ := hl.name_inside hi hs
  constructor
  · rintro ⟨-, -, s', own, hs', hown, hn, -⟩
    rw [hs] at hs'
    cases hs'
    exact ⟨own, hown, hn⟩
  · rintro ⟨own, hown, hn⟩
    obtain ⟨hle, hend⟩ := cstrAt_end hown hq hzero
    exact ⟨hoff.trans (Nat.le_add_right _ _), ⟨_, Nat.add_le_add_left hn _, by omega, hend⟩, s, own, hs,
      hown, hn, (cstrAt_drop hown hn).1⟩

end

theorem nameFits_iff {s : ElfSymbolType W} {own : List UInt8} (hown : cstrAt img.bytes s.name = some own)
    (disableUnderscore : Nat) : NameFits img (nameIndex disableUnderscore) s ↔ disableUnderscore ≠ 0 ∨
      (cstrAt img.bytes s.name = some [] →
        s.type = .nosup ∨ s.type = .notype ∧ img.bytes[s.name + 1]? = some 36) := by
  rw [NameFits, nameIndex, hown]
  by_cases h : disableUnderscore = 0
  · rw [if_neg (not_not.2 h)]
    cases own <;> simp [h]
  · rw [if_pos h]
    simp [h]

theorem namesKept_ok {strtab : ElfSectionView} {err : StdReturnType} {tables : StoredSymbols W} :
    NamesKept img st strtab n (.ok (err, tables)) ↔ TablesKept img st strtab n tables := by
  constructor
  · rintro ⟨_, _, heq, h⟩
    cases heq
    exact h
  · exact fun h => ⟨_, _, rfl, h⟩

theorem namesKept_store_bind {strtab : ElfSectionView} {s : ElfSymbolType W} {sym : StoredSymbol W}
    {tables : StoredSymbols W} {rest : StoredSymbols W → ElfM (StdReturnType × StoredSymbols W)} {C : Prop}
    (hsym : NameKept img st strtab n sym ↔ ∃ own, cstrAt img.bytes s.name = some own ∧ n ≤ own.length)
    (hplace : sym.name = s.name + n)
    (hrest : ∀ t', NamesKept img st strtab n (rest t') ↔ TablesKept img st strtab n t' ∧ C) :
    NamesKept img st strtab n (cpuemuSymbolStore img sym tables s.type >>= rest) ↔
      TablesKept img st strtab n tables ∧ NameFits img n s ∧ C := by
  have hstored : ∀ t' : StoredSymbols W, (∀ e, e ∈ t'.gl ∨ e ∈ t'.func ↔
      (e ∈ tables.gl ∨ e ∈ tables.func) ∨ e = sym) →
      (NamesKept img st strtab n (rest t') ↔ TablesKept img st strtab n tables ∧
        (∃ own, cstrAt img.bytes s.name = some own ∧ n ≤ own.length) ∧ C) := by
    intro t' ht'
    rw [hrest, ← hsym, ← and_assoc]
    refine and_congr_left fun _ => ?_
    simp only [TablesKept, ht', or_imp, forall_and, forall_eq]
  rw [NameFits]
  cases htype : s.type with
  | object =>
    refine (hstored _ fun e => ?_).trans (by simp)
    simp only [mem_append, mem_singleton]
    tauto
  | func =>
    refine (hstored _ fun e => ?_).trans (by simp)
    simp only [mem_append, mem_singleton]
    tauto
  | nosup => exact (hrest tables).trans (by simp)
  | notype =>
    rw [cpuemuSymbolStore, ElfImage.byte, hplace]
    cases hbyte : img.bytes[s.name + n]? with
    | none =>
      refine iff_of_false ?_ ?_
      · rintro ⟨_, _, heq, -⟩
        cases heq
      · rintro ⟨-, ⟨own, hown, hn⟩ | h | ⟨-, h⟩, -⟩
        · obtain ⟨c, hc⟩ := (cstrAt_drop hown hn).2
          rw [hbyte] at hc
          cases hc
        · cases h
        · cases h
    | some c =>
      change NamesKept img st strtab n (rest (if c ≠ 36 then _ else _)) ↔ _
      by_cases hc : c = 36
      · rw [if_neg (not_not.2 hc), hrest, hc]
        simp
      · rw [if_pos hc, hstored _ fun e => ?_]
        · simp [hc]
        · simp only [mem_append, mem_singleton]
          tauto

theorem SymbolsLoaded.loop_iff (hl : SymbolsLoaded img st t) (len k : Nat) (tables : StoredSymbols W)
    (hk : k + len ≤ t.size / symSize (headerAt img).is64) :
    let strtab := sectionAt img (headerAt img) t.link
    NamesKept img st strtab n (cpuemuSymbolSetLoop W img st n (range' k len) tables) ↔
      TablesKept img st strtab n tables ∧ ∀ i, k ≤ i → i < k + len →
        (∀ j, k ≤ j → j < i → ∃ s, elfsymGetSymbol W img st j = .ok (.ok s)) →
        ∀ s, elfsymGetSymbol W img st i = .ok (.ok s) → NameFits img n s := by
  induction len generalizing k tables with
  | zero =>
    refine namesKept_ok.trans ⟨fun h => ⟨h, fun i hi hi' => ?_⟩, And.left⟩
    omega
  | succ len ih =>
    have hk' : k + 1 + len ≤ t.size / symSize (headerAt img).is64 := by omega
    have hget := hl.getSymbol W (show k < t.size / symSize (headerAt img).is64 by omega)
    rw [range'_succ, cpuemuSymbolSetLoop]
    cases hr : elfsymGetSymbol W img st k with
    | error e => rw [hr] at hget; cases hget
    | ok r =>
      cases r with
      | error err =>
        -- the loop ends here, and no later symbol is reached
        refine namesKept_ok.trans ⟨fun h => ⟨h, fun i hi _ hread s hs => ?_⟩, And.left⟩
        rcases Nat.eq_or_lt_of_le hi with rfl | hlt
        · rw [hr] at hs
          cases hs
        · obtain ⟨s', hs'⟩ := hread k le_rfl hlt
          rw [hr] at hs'
          cases hs'
      | ok s =>
        refine (namesKept_store_bind (hl.nameKept_iff (by omega) hr) rfl fun t' => ih (k + 1) t' hk').trans
          (and_congr_right fun _ => ?_)
        constructor
        · rintro ⟨hfits, hrest⟩ i hi hi' hread s' hs'
          rcases Nat.eq_or_lt_of_le hi with rfl | hlt
          · rw [hr] at hs'
            cases hs'
            exact hfits
          · exact hrest i hlt (by omega) (fun j hj => hread j (by omega)) s' hs'
        · refine fun h => ⟨h k le_rfl (by omega) (fun j hj hj' => by omega) s hr, ?_⟩
          refine fun i hi hi' hread => h i (by omega) (by omega) fun j hj hj' => ?_
          rcases Nat.eq_or_lt_of_le hj with rfl | hlt
          · exact ⟨s, hr⟩
          · exact hread j hlt hj'

end

/-- **The names of the stored symbols.** After the first successful load of an accepted image all stored
names are right exactly if the names are kept as they are or no symbol with an empty name is stored. -/
theorem cpuemu_symbol_set_iff {img : ElfImage} {st : ElfSectionState} {num : Nat} (W disableUnderscore : Nat)
    (hcheck : elfImageCheck img = some .ok) (hsize : img.Addressable)
    (hload : elfSymbolLoad img .init = .ok (.ok, st)) (hnum : elfsymGetSymbolNum st = .ok num) :
    ∃ j < (headerAt img).shnum, (sectionAt img (headerAt img) j).type = shtSymtab ∧
      (∀ index < num, elfsymEntry st index =
        (sectionAt img (headerAt img) j).offset + index * symSize (headerAt img).is64) ∧
      let strtab := sectionAt img (headerAt img) (sectionAt img (headerAt img) j).link
      (NamesKept img st strtab (nameIndex disableUnderscore) (cpuemuSymbolSet W img st disableUnderscore) ↔
        disableUnderscore ≠ 0 ∨ EmptySkipped W img st num) := by
  obtain ⟨j, hj, -, hl⟩ := symbolsLoaded_of_load (elfImageCheck_eq_ok.1 hcheck) hsize hload
  have hcount : num = (sectionAt img (headerAt img) j).size / symSize (headerAt img).is64 := by
    rw [← hl.is64]
    exact Except.ok.inj (hnum.symm.trans hl.num)
  refine ⟨j, hj, hl.type, fun index _ => hl.entry index, ?_⟩
  have hloop := @SymbolsLoaded.loop_iff W img st _ (nameIndex disableUnderscore) hl num 0 {} (by omega)
  have hempty : TablesKept img st (sectionAt img (headerAt img) (sectionAt img (headerAt img) j).link)
      (nameIndex disableUnderscore) ({} : StoredSymbols W) := fun e he => by simp at he
  have hset : cpuemuSymbolSet W img st disableUnderscore = cpuemuSymbolSetLoop W img st
      (nameIndex disableUnderscore) (range' 0 num) {} := by
    rw [cpuemuSymbolSet, hnum, ← range_eq_range']
  dsimp only at hloop ⊢
  rw [hset, hloop]
  simp only [hempty, true_and, Nat.zero_le, forall_const, Nat.zero_add]
  have hown : ∀ i < num, ∀ s : ElfSymbolType W, elfsymGetSymbol W img st i = .ok (.ok s) →
      ∃ own, cstrAt img.bytes s.name = some own := by
    intro i hi s hs
    obtain ⟨-, q, hq, -, hzero⟩ := hl.name_inside (hcount ▸ hi) hs
    exact cstrAt_isSome hq hzero
  constructor
  · intro h
    by_cases hd : disableUnderscore = 0
    · refine .inr fun i hi hread s hs => ?_
      obtain ⟨own, hown⟩ := hown i hi s hs
      exact ((nameFits_iff hown _).1 (h i hi hread s hs)).resolve_left (not_not.2 hd)
    · exact .inl hd
  · intro h i hi hread s hs
    obtain ⟨own, hown⟩ := hown i hi s hs
    exact (nameFits_iff hown _).2 (h.imp_right fun h => h i hi hread s hs)

theorem cpuemu_symbol_set_small :
    ∃ j < (headerAt progbitsImage).shnum,
      (sectionAt progbitsImage (headerAt progbitsImage) j).type = shtSymtab ∧
      (∀ index < 1, elfsymEntry smallElf32State index =
        (sectionAt progbitsImage (headerAt progbitsImage) j).offset +
          index * symSize (headerAt progbitsImage).is64) ∧
      NamesKept progbitsImage smallElf32State
        (sectionAt progbitsImage (headerAt progbitsImage)
          (sectionAt progbitsImage (headerAt progbitsImage) j).link) (nameIndex 0)
        (cpuemuSymbolSet 32 progbitsImage smallElf32State 0) := by
  obtain ⟨j, hj, htype, hentry, hiff⟩ := @cpuemu_symbol_set_iff progbitsImage smallElf32State 1 32 0
    progbitsImage_loaded.1 (ElfImage.addressable_of_fileLoad progbitsImage_file) progbitsImage_loaded.2 rfl
  refine ⟨j, hj, htype, hentry, hiff.2 (.inr fun i hi _ s hs hempty => ?_)⟩
  obtain rfl : i = 0 := by omega
  have hget : elfsymGetSymbol 32 progbitsImage smallElf32State 0 = .ok (.ok ⟨213, 0, 0, .notype⟩) := by
    decide +kernel
  rw [hget] at hs
  cases hs
  exact absurd hempty (by decide +kernel)

def emptyNameImage : ElfImage := ⟨(smallElf32 1 212 13).set 225 0, by decide +kernel⟩

/-- The symbol without a name is stored as `.debug_line`. -/
theorem cpuemu_symbol_set_empty_name :
    elfImageCheck emptyNameImage = some .ok ∧
      elfSymbolLoad emptyNameImage .init = .ok (.ok, smallElf32State) ∧
      elfsymGetSymbol 32 emptyNameImage smallElf32State 0 = .ok (.ok ⟨212, 0, 0, .notype⟩) ∧
      cstrAt emptyNameImage.bytes 212 = some [] ∧
      cpuemuSymbolSet 32 emptyNameImage smallElf32State 0 =
        .ok (.ok, { gl := [⟨0, 213, 0, 0⟩], func := [⟨0, 213, 0, 0⟩] }) ∧
      cstrAt emptyNameImage.bytes 213 = some debugLine := by
  decide +kernel

end Athrill
