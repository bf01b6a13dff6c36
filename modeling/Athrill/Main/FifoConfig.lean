import Athrill.Debugger.TokenString
import Athrill.File

/-!
# The FIFO configuration (`main/cpuemu.cpp`)

`cpuemu_set_comm_fifocfg` takes the names of two FIFOs from the first two lines of a file. Main result:
`cpuemu_set_comm_fifocfg_iff`.
-/

namespace Athrill

open FlatMemory List

variable {W : Nat}

/-- What the host says about paths, which are shorter than `PATH_MAX`. -/
structure FifoHost where
  file : List UInt8 → Option (List UInt8)
  fileExist : List UInt8 → Bool
  file_short : ∀ path, (file path).isSome → path.length < tokenStringMaxSize
  fileExist_short : ∀ path, fileExist path = true → path.length < tokenStringMaxSize

structure CpuEmuFifoFileType where
  folderPath : TokenStringType := {}
  rxPath : TokenStringType := {}
  txPath : TokenStringType := {}

def fifoTxString : List UInt8 := tokenName ['T', 'X']
def fifoRxString : List UInt8 := tokenName ['R', 'X']

def fifoPath (folder name path : TokenStringType) : StdReturnType × TokenStringType :=
  if path.len > 0 then (.invalid, path)
  else if folder.len + name.len > tokenStringMaxSize - 1 then (.invalid, folder)
  else (.ok, tokenMerge folder name)

def parseFifopath (W : Nat) (stale : Nat → UInt8) (c : TokenContainerType) (f : CpuEmuFifoFileType)
    (line : List UInt8) : Option (StdReturnType × CpuEmuFifoFileType) :=
  match tokenSplit W stale c line with
  | none => none
  | some (err, c) =>
    if err ≠ .ok then some (err, f)
    else if c.num ≠ 2 then some (.invalid, f)
    else if (c.array 0).type ≠ .string then some (.invalid, f)
    else if (c.array 1).type ≠ .string then some (.invalid, f)
    else if tokenStrcmp (c.array 0).body (tokenString fifoTxString) then
      let r := fifoPath f.folderPath (c.array 1).body f.txPath
      some (r.1, { f with txPath := r.2 })
    else if tokenStrcmp (c.array 0).body (tokenString fifoRxString) then
      let r := fifoPath f.folderPath (c.array 1).body f.rxPath
      some (r.1, { f with rxPath := r.2 })
    else some (.ok, f)

def commFifo (path : TokenStringType) : Option (List UInt8) :=
  if path.len > 0 then some path.cstr else none

def fileGetParentFolderPathlen (filepath : List UInt8) : Nat :=
  (filepath.reverse.dropWhile (· ≠ 47)).length

def CpuEmuFifoFileType.reset (f : CpuEmuFifoFileType) : CpuEmuFifoFileType :=
  { f with txPath.len := 0, rxPath.len := 0 }

def fifoExist (host : FifoHost) (f : CpuEmuFifoFileType) :
    Option (StdReturnType × CpuEmuFifoFileType) :=
  match commFifo f.rxPath with
  | none => none
  | some rx =>
    if host.fileExist rx then
      match commFifo f.txPath with
      | none => none
      | some tx => if host.fileExist tx then some (.ok, f) else some (.invalid, f.reset)
    else some (.invalid, f.reset)

def lineRoom : Nat := 4096 - 1

def firstRead (file : List UInt8) : List UInt8 := (fileGetline lineRoom file).1

def secondRead (file : List UInt8) : List UInt8 := firstRead (fileGetline lineRoom file).2

def fifoLines (W : Nat) (host : FifoHost) (stale : Bool → Nat → UInt8)
    (containers : Bool → TokenContainerType) (f : CpuEmuFifoFileType) (a b : List UInt8) :
    Option (StdReturnType × CpuEmuFifoFileType) :=
  if a = [] then some (.invalid, f.reset)
  else
    match parseFifopath W (stale false) (containers false) f a with
    | none => none
    | some (err, f) =>
      if err ≠ .ok then some (err, f.reset)
      -- without a second line `err` is that of the first one
      else if b = [] then some (err, f.reset)
      else
        match parseFifopath W (stale true) (containers true) f b with
        | none => none
        | some (err, f) => if err ≠ .ok then some (err, f.reset) else fifoExist host f

def parentFolder (path : List UInt8) : List UInt8 := path.take (fileGetParentFolderPathlen path)

def cpuemuSetCommFifocfg (W : Nat) (host : FifoHost) (stale : Bool → Nat → UInt8)
    (containers : Bool → TokenContainerType) (f : CpuEmuFifoFileType) (fifocfg : Bytes.CString) :
    Option (StdReturnType × CpuEmuFifoFileType) :=
  let r := tokenStringSet {} fifocfg
  if r.1 = false then some (.invalid, f)
  else if r.2.len ≥ tokenStringMaxSize then none
  else
    match host.file fifocfg.bytes with
    | none => some (.noent, f)
    | some file =>
      let f := { f with folderPath := terminated f.folderPath.str (parentFolder fifocfg.bytes) }
      fifoLines W host stale containers f (firstRead file) (secondRead file)

/-! ## What is expected -/

def NamesFifos (a b tx rx : List UInt8) : Prop :=
  tokenWords none [] a = [fifoTxString, tx] ∧ tokenWords none [] b = [fifoRxString, rx] ∨
    tokenWords none [] a = [fifoRxString, rx] ∧ tokenWords none [] b = [fifoTxString, tx]

def FifoPair (host : FifoHost) (folder a b tx rx : List UInt8) : Prop :=
  NamesFifos a b tx rx ∧ host.fileExist (folder ++ tx) = true ∧ host.fileExist (folder ++ rx) = true

def firstLine (file : List UInt8) : List UInt8 := file.takeWhile (· ≠ 10)

def secondLine (file : List UInt8) : List UInt8 := firstLine ((file.dropWhile (· ≠ 10)).drop 1)

/-- The result that is expected for the first two lines of the file. -/
def FifoKept (host : FifoHost) (folder file : List UInt8)
    (result : Option (StdReturnType × CpuEmuFifoFileType)) : Prop :=
  ∃ err f, result = some (err, f) ∧
    (err = .ok ↔ ∃ tx rx, FifoPair host folder (firstLine file) (secondLine file) tx rx) ∧
    ∀ tx rx, FifoPair host folder (firstLine file) (secondLine file) tx rx →
      commFifo f.txPath = some (folder ++ tx) ∧ commFifo f.rxPath = some (folder ++ rx)

/-! ## What the lines do -/

def FifoLine (W : Nat) (folder line key name : List UInt8) : Prop :=
  tokenWords none [] line = [key, name] ∧ wordView W key = .text key ∧ wordView W name = .text name ∧
    (key = fifoTxString ∨ key = fifoRxString → folder.length + name.length < tokenStringMaxSize)

def FifoStray (W : Nat) (host : FifoHost) (folder a b : List UInt8) : Prop :=
  tokenContainerMaxSize < (tokenWords none [] a).length ∨
    ∃ key name, FifoLine W folder a key name ∧
      (b = [] ∨ tokenContainerMaxSize < (tokenWords none [] b).length ∨
        ∃ key' name', FifoLine W folder b key' name' ∧
          (key ∉ [fifoTxString, fifoRxString] ∨ key' ∉ [fifoTxString, fifoRxString]) ∧
          (key = fifoRxString → host.fileExist (folder ++ name) = true) ∧
          (key' = fifoRxString → host.fileExist (folder ++ name') = true))

/-- The lines as read do not go wrong and name, by no numbers, the FIFOs of the first two lines. -/
def FifoFits (W : Nat) (host : FifoHost) (folder file : List UInt8) : Prop :=
  ¬ FifoStray W host folder (firstRead file) (secondRead file) ∧
    ∀ tx rx, FifoPair host folder (firstLine file) (secondLine file) tx rx ↔
      FifoPair host folder (firstRead file) (secondRead file) tx rx ∧
        wordView W tx = .text tx ∧ wordView W rx = .text rx

section
variable {host : FifoHost} {folder line key name a b tx rx : List UInt8} {f : CpuEmuFifoFileType}

theorem NamesFifos.unique {tx' rx' : List UInt8} (h : NamesFifos a b tx rx)
    (h' : NamesFifos a b tx' rx') : tx = tx' ∧ rx = rx' := by
  have hne : fifoTxString ≠ fifoRxString := by decide
  rcases h with ⟨ha, hb⟩ | ⟨ha, hb⟩ <;> rcases h' with ⟨ha', hb'⟩ | ⟨ha', hb'⟩ <;> rw [ha] at ha' <;>
    rw [hb] at hb' <;> simp_all

theorem length_firstRead (file : List UInt8) : (firstRead file).length < tokenStringMaxSize :=
  Nat.lt_succ_of_le (length_fileGetline lineRoom file)

theorem ne_nil_of_mem_tokenWords (h : name ∈ tokenWords none [] line) : name ≠ [] := by
  rw [tokenWords_nil, tokenRuns, mem_filter] at h
  exact of_decide_eq_true h.2

def fifoTake (f : CpuEmuFifoFileType) (key name : List UInt8) : StdReturnType × CpuEmuFifoFileType :=
  let path := tokenMerge f.folderPath (terminated (fun _ => 0) name)
  if key = fifoTxString then
    if f.txPath.len > 0 then (.invalid, f) else (.ok, { f with txPath := path })
  else if key = fifoRxString then
    if f.rxPath.len > 0 then (.invalid, f) else (.ok, { f with rxPath := path })
  else (.ok, f)

theorem type_write (stale : Nat → UInt8) (slot : TokenValueType) :
    ((tokenOf W (terminated stale name)).write slot).type = .string ↔ wordView W name = .text name := by
  rw [tokenOf_terminated]
  obtain ⟨v, hv⟩ | ⟨v, hv⟩ | hv := @wordView_cases W name
  · rw [hv]
    exact iff_of_false nofun nofun
  · rw [hv]
    exact iff_of_false nofun nofun
  · rw [hv]
    exact iff_of_true rfl rfl

theorem fifoPath_terminated (stale : Nat → UInt8) (folder path : TokenStringType) :
    fifoPath folder (terminated stale name) path =
      if path.len > 0 then (.invalid, path)
      else if folder.len + name.length < tokenStringMaxSize then
        (.ok, tokenMerge folder (terminated (fun _ => 0) name))
      else (.invalid, folder) := by
  have hmerge : tokenMerge folder (terminated stale name) =
      tokenMerge folder (terminated (fun _ => 0) name) := by
    simp only [tokenMerge, bytes_terminated]
    rfl
  rw [fifoPath, hmerge]
  split_ifs with hset hlong hlt hlt
  · rfl
  · change folder.len + name.length > tokenStringMaxSize - 1 at hlong
    omega
  · rfl
  · rfl
  · change ¬ folder.len + name.length > tokenStringMaxSize - 1 at hlong
    have hpos : tokenStringMaxSize = 4096 := rfl
    omega

theorem parseFifopath_two {stale : Nat → UInt8} {c : TokenContainerType}
    (hline : tokenWords none [] line = [key, name]) (hlen : line.length < tokenStringMaxSize)
    (hfolder : f.folderPath.len = folder.length) :
    (FifoLine W folder line key name ∧
      parseFifopath W stale c f line = some (fifoTake f key name)) ∨
    (¬ FifoLine W folder line key name ∧
      ∃ f', parseFifopath W stale c f line = some (.invalid, f')) := by
  have hwords := @tokenSplitCommon_words W none stale c line fun w hw => by
    have hle := length_le_of_mem_tokenWords hw
    rw [length_nil] at hle
    omega
  rw [hline] at hwords
  obtain ⟨c', hsplit, hnum, harray⟩ := hwords.1 (show 2 ≤ tokenContainerMaxSize by decide)
  obtain ⟨st, hkey⟩ := harray 0 key rfl
  obtain ⟨st', hname⟩ := harray 1 name rfl
  have hnum' : c'.num = 2 := hnum
  simp only [parseFifopath, tokenSplit, hsplit, hnum', hkey, hname, type_write, ne_eq, not_true_eq_false, if_false,
    FifoLine, hline, true_and]
  by_cases hk : wordView W key = .text key
  swap
  · exact .inr ⟨fun h => hk h.1, f, if_pos hk⟩
  by_cases hn : wordView W name = .text name
  swap
  · exact .inr ⟨fun h => hn h.2.1, f, by rw [if_neg (not_not.2 hk), if_pos hn]⟩
  rw [if_neg (not_not.2 hk), if_neg (not_not.2 hn), (body_write_of_text _ hk).2,
    (body_write_of_text _ hn).2, fifoPath_terminated, fifoPath_terminated, hfolder, fifoTake]
  have htx : 0 ∉ (tokenString fifoTxString).bytes := by rw [bytes_tokenString]; decide
  have hrx : 0 ∉ (tokenString fifoRxString).bytes := by rw [bytes_tokenString]; decide
  simp only [hk, hn, true_and, tokenStrcmp_iff (.inr htx), tokenStrcmp_iff (.inr hrx), bytes_tokenString,
    bytes_terminated]
  by_cases hfits : folder.length + name.length < tokenStringMaxSize
  · simp only [hfits, if_true, implies_true, true_and, not_true_eq_false, false_and, or_false]
    split_ifs <;> rfl
  · simp only [hfits, if_false, imp_false]
    by_cases htx : key = fifoTxString
    · rw [if_pos htx]
      exact .inr ⟨fun h => h (.inl htx), by split_ifs <;> exact ⟨_, rfl⟩⟩
    · by_cases hrx : key = fifoRxString
      · rw [if_neg htx, if_pos hrx]
        exact .inr ⟨fun h => h (.inr hrx), by split_ifs <;> exact ⟨_, rfl⟩⟩
      · rw [if_neg htx, if_neg hrx, if_neg htx, if_neg hrx]
        exact .inl ⟨not_or.2 ⟨htx, hrx⟩, rfl⟩

theorem parseFifopath_cases (stale : Nat → UInt8) (c : TokenContainerType)
    (hfolder : f.folderPath.len = folder.length) (hlen : line.length < tokenStringMaxSize) :
    (tokenContainerMaxSize < (tokenWords none [] line).length ∧ parseFifopath W stale c f line = none) ∨
    (∃ key name, FifoLine W folder line key name ∧
      parseFifopath W stale c f line = some (fifoTake f key name)) ∨
    ((tokenWords none [] line).length ≤ tokenContainerMaxSize ∧
      (∀ key name, ¬ FifoLine W folder line key name) ∧
      ∃ f', parseFifopath W stale c f line = some (.invalid, f')) := by
  by_cases htwo : (tokenWords none [] line).length = 2
  · obtain ⟨key, name, hline⟩ := length_eq_two.1 htwo
    have hle : (tokenWords none [] line).length ≤ tokenContainerMaxSize := by rw [htwo]; decide
    obtain ⟨h, hparse⟩ | ⟨h, hparse⟩ := @parseFifopath_two W folder line key name f stale c hline hlen hfolder
    · exact .inr (.inl ⟨key, name, h, hparse⟩)
    · refine .inr (.inr ⟨hle, fun key' name' h' => h ?_, hparse⟩)
      cases hline.symm.trans h'.1
      exact h'
  · have hno : ∀ key name, ¬ FifoLine W folder line key name := fun key name h => htwo (by rw [h.1]; rfl)
    have hwords := @tokenSplitCommon_words W none stale c line fun w hw => by
      have hle := length_le_of_mem_tokenWords hw
      rw [length_nil] at hle
      omega
    by_cases hcount : tokenContainerMaxSize < (tokenWords none [] line).length
    · exact .inl ⟨hcount, by rw [parseFifopath, tokenSplit, hwords.2 hcount]⟩
    · obtain ⟨c', hsplit, hnum, -⟩ := hwords.1 (not_lt.1 hcount)
      refine .inr (.inr ⟨not_lt.1 hcount, hno, f, ?_⟩)
      simp only [parseFifopath, tokenSplit, hsplit, hnum, ne_eq, not_true_eq_false, if_false, if_pos htwo]

/-! ## Whole files -/

theorem FifoLine.count_le (h : FifoLine W folder line key name) :
    ¬ tokenContainerMaxSize < (tokenWords none [] line).length := by
  rw [h.1]
  exact not_lt.2 (show 2 ≤ tokenContainerMaxSize by decide)

variable {key' name' : List UInt8}

theorem fifoStray_iff (ha : FifoLine W folder a key name) (hb : FifoLine W folder b key' name')
    (hne : b ≠ []) : FifoStray W host folder a b ↔
      (key ∉ [fifoTxString, fifoRxString] ∨ key' ∉ [fifoTxString, fifoRxString]) ∧
        (key = fifoRxString → host.fileExist (folder ++ name) = true) ∧
        (key' = fifoRxString → host.fileExist (folder ++ name') = true) := by
  constructor
  · rintro (h | ⟨k, n, ha', h | h | ⟨k', n', hb', h⟩⟩)
    · exact absurd h ha.count_le
    · exact absurd h hne
    · exact absurd h hb.count_le
    · cases ha.1.symm.trans ha'.1
      cases hb.1.symm.trans hb'.1
      exact h
  · exact fun h => .inr ⟨key, name, ha, .inr (.inr ⟨key', name', hb, h⟩)⟩

theorem FifoPair.lines (h : FifoPair host folder a b tx rx) (htx : wordView W tx = .text tx)
    (hrx : wordView W rx = .text rx) :
    (FifoLine W folder a fifoTxString tx ∧ FifoLine W folder b fifoRxString rx) ∨
      (FifoLine W folder a fifoRxString rx ∧ FifoLine W folder b fifoTxString tx) := by
  obtain ⟨hnames, hextx, hexrx⟩ := h
  have hltx := host.fileExist_short _ hextx
  have hlrx := host.fileExist_short _ hexrx
  rw [length_append] at hltx hlrx
  have hkey : wordView W fifoTxString = .text fifoTxString ∧ wordView W fifoRxString = .text fifoRxString :=
    ⟨rfl, rfl⟩
  rcases hnames with ⟨ha, hb⟩ | ⟨ha, hb⟩
  · exact .inl ⟨⟨ha, hkey.1, htx, fun _ => hltx⟩, hb, hkey.2, hrx, fun _ => hlrx⟩
  · exact .inr ⟨⟨ha, hkey.2, hrx, fun _ => hlrx⟩, hb, hkey.1, htx, fun _ => hltx⟩

theorem commFifo_merge (hf : f.folderPath.Terminated) (hfolder : f.folderPath.bytes = folder)
    (hline : name ∈ tokenWords none [] line) (hfits : folder.length + name.length < tokenStringMaxSize) :
    commFifo (tokenMerge f.folderPath (terminated (fun _ => 0) name)) = some (folder ++ name) ∧
      (tokenMerge f.folderPath (terminated (fun _ => 0) name)).len > 0 := by
  have hzero : 0 ∉ name := zero_not_mem_of_mem_tokenWords not_mem_nil hline
  have hpos := length_pos_of_ne_nil (ne_nil_of_mem_tokenWords hline)
  have hlen : f.folderPath.len = folder.length := by rw [← hfolder, length_bytes]
  have hterm := (tokenMerge_terminated hf (by rwa [@bytes_terminated (fun _ => 0) name])).1
  have hbytes := @bytes_tokenMerge f.folderPath (terminated (fun _ => 0) name) (by rw [hlen]; exact hfits)
  have hcount : (tokenMerge f.folderPath (terminated (fun _ => 0) name)).len > 0 := by
    rw [← length_bytes, hbytes, bytes_terminated, length_append]
    omega
  have hcstr : TokenStringType.cstr _ = _ := hterm.takeWhile
  rw [commFifo, if_pos hcount, hcstr, hbytes, hfolder, bytes_terminated]
  exact ⟨rfl, hcount⟩

inductive FifoOutcome (W : Nat) (host : FifoHost) (folder a b : List UInt8) :
    Option (StdReturnType × CpuEmuFifoFileType) → Prop
  | undefined : FifoStray W host folder a b → FifoOutcome W host folder a b none
  | noSecond {f : CpuEmuFifoFileType} : FifoStray W host folder a b →
    FifoOutcome W host folder a b (some (.ok, f.reset))
  | accepted {tx rx : List UInt8} {f : CpuEmuFifoFileType} : ¬ FifoStray W host folder a b →
    FifoPair host folder a b tx rx → wordView W tx = .text tx → wordView W rx = .text rx →
    commFifo f.txPath = some (folder ++ tx) → commFifo f.rxPath = some (folder ++ rx) →
    FifoOutcome W host folder a b (some (.ok, f))
  | refused {f : CpuEmuFifoFileType} : ¬ FifoStray W host folder a b →
    (∀ tx rx, FifoPair host folder a b tx rx → wordView W tx = .text tx →
      ¬ wordView W rx = .text rx) → FifoOutcome W host folder a b (some (.invalid, f))

section
variable (ha : FifoLine W folder a key name) (hb : FifoLine W folder b key' name')
include ha hb

theorem FifoOutcome.refused_pair (hstray : ¬ FifoStray W host folder a b)
  (hno : ¬ ((key = fifoTxString ∧ key' = fifoRxString ∨ key = fifoRxString ∧ key' = fifoTxString) ∧
      host.fileExist (folder ++ name) = true ∧ host.fileExist (folder ++ name') = true)) :
    FifoOutcome W host folder a b (some (.invalid, f)) := by
  refine .refused hstray fun tx rx hpair _ _ => hno ?_
  obtain ⟨⟨ha', hb'⟩ | ⟨ha', hb'⟩, hextx, hexrx⟩ := hpair <;> cases ha.1.symm.trans ha' <;>
    cases hb.1.symm.trans hb'
  · exact ⟨.inl ⟨rfl, rfl⟩, hextx, hexrx⟩
  · exact ⟨.inr ⟨rfl, rfl⟩, hexrx, hextx⟩

def fifoNamed (folder key name key' name' : List UInt8) (which : List UInt8) : Option (List UInt8) :=
  if key = which then some (folder ++ name) else if key' = which then some (folder ++ name') else none

theorem fifoTake_twice (hf : f.folderPath.Terminated) (hfolder : f.folderPath.bytes = folder)
  (htx : f.txPath.len = 0) (hrx : f.rxPath.len = 0) :
    (key = key' ∧ key ∈ [fifoTxString, fifoRxString] ∧
        (fifoTake (fifoTake f key name).2 key' name').1 = .invalid) ∨
      (¬ (key = key' ∧ key ∈ [fifoTxString, fifoRxString]) ∧
        (fifoTake (fifoTake f key name).2 key' name').1 = .ok ∧
        commFifo (fifoTake (fifoTake f key name).2 key' name').2.txPath =
          fifoNamed folder key name key' name' fifoTxString ∧
        commFifo (fifoTake (fifoTake f key name).2 key' name').2.rxPath =
          fifoNamed folder key name key' name' fifoRxString) := by
  have hpath := @commFifo_merge folder a name f hf hfolder (by rw [ha.1]; simp)
  have hpath' := @commFifo_merge folder b name' f hf hfolder (by rw [hb.1]; simp)
  have hfits := fun h => hpath (ha.2.2.2 h)
  have hfits' := fun h => hpath' (hb.2.2.2 h)
  have hdiff : fifoRxString ≠ fifoTxString := by decide
  have hunset : ∀ {p : TokenStringType}, p.len = 0 → commFifo p = none := fun h => if_neg (by omega)
  simp only [fifoTake, fifoNamed, htx, hrx]
  -- the keyword of each line: `TX`, `RX` or another one
  by_cases hk : key = fifoTxString <;> by_cases hk' : key' = fifoTxString <;>
    by_cases hr : key = fifoRxString <;> by_cases hr' : key' = fifoRxString <;> simp_all
  · exact Ne.symm hk'
  · exact Ne.symm hr'

theorem fifoExist_outcome (hne : b ≠ []) (hdup : ¬ (key = key' ∧ key ∈ [fifoTxString, fifoRxString]))
  (htx : commFifo f.txPath = fifoNamed folder key name key' name' fifoTxString)
  (hrx : commFifo f.rxPath = fifoNamed folder key name key' name' fifoRxString) :
    FifoOutcome W host folder a b (fifoExist host f) := by
  have hstray := @fifoStray_iff W host folder key name a b key' name' ha hb hne
  have hdiff : fifoRxString ≠ fifoTxString := by decide
  rw [fifoExist, htx, hrx]
  have hrefuse := @FifoOutcome.refused_pair W host folder key name a b f.reset key' name' ha hb
  have hundefined := fun h => FifoOutcome.undefined (hstray.2 h)
  by_cases hk : key = fifoTxString <;> by_cases hk' : key' = fifoTxString <;>
    by_cases hr : key = fifoRxString <;> by_cases hr' : key' = fifoRxString <;> simp_all [fifoNamed]
  · split_ifs with hex hex'
    · exact .accepted hstray ⟨.inl ⟨ha.1, hb.1⟩, hex', hex⟩ ha.2.2.1 hb.2.2.1 htx hrx
    · exact hrefuse fun h => absurd h hex'
    · exact hrefuse fun _ => by simpa using hex
  · split_ifs with hex hex'
    · exact .accepted hstray ⟨.inr ⟨ha.1, hb.1⟩, hex', hex⟩ hb.2.2.1 ha.2.2.1 htx hrx
    · exact hrefuse fun _ => by simpa using hex'
    · exact hrefuse fun h => absurd h hex
  · split_ifs with hex
    · exact hundefined hex
    · exact hrefuse (by simpa using hex)
  · split_ifs with hex
    · exact hundefined hex
    · exact hrefuse (by simpa using hex)

end

theorem FifoOutcome.refused_first (hcount : ¬ tokenContainerMaxSize < (tokenWords none [] a).length)
    (hno : ∀ key name, ¬ FifoLine W folder a key name) :
    FifoOutcome W host folder a b (some (.invalid, f)) := by
  refine .refused ?_ fun tx rx hpair htx hrx => ?_
  · rintro (h | ⟨key, name, h, -⟩)
    · exact hcount h
    · exact hno key name h
  · obtain ⟨h, -⟩ | ⟨h, -⟩ := hpair.lines htx hrx <;> exact hno _ _ h

theorem FifoOutcome.refused_second (ha : FifoLine W folder a key name) (hne : b ≠ [])
    (hcount : ¬ tokenContainerMaxSize < (tokenWords none [] b).length)
    (hno : ∀ key name, ¬ FifoLine W folder b key name) :
    FifoOutcome W host folder a b (some (.invalid, f)) := by
  refine .refused ?_ fun tx rx hpair htx hrx => ?_
  · rintro (h | ⟨_, _, -, h | h | ⟨key', name', h, -⟩⟩)
    · exact ha.count_le h
    · exact hne h
    · exact hcount h
    · exact hno key' name' h
  · obtain ⟨-, h⟩ | ⟨-, h⟩ := hpair.lines htx hrx <;> exact hno _ _ h

theorem fifoLines_outcome (stale : Bool → Nat → UInt8) (containers : Bool → TokenContainerType)
    (hf : f.folderPath.Terminated) (hfolder : f.folderPath.bytes = folder) (htx : f.txPath.len = 0)
    (hrx : f.rxPath.len = 0) (ha : a.length < tokenStringMaxSize) (hb : b.length < tokenStringMaxSize) :
    FifoOutcome W host folder a b (fifoLines W host stale containers f a b) := by
  have hlen : f.folderPath.len = folder.length := by rw [← hfolder, length_bytes]
  rw [fifoLines]
  by_cases hnil : a = []
  · rw [if_pos hnil]
    refine .refused_first ?_ fun key name h => ?_
    · rw [hnil]
      decide
    · exact absurd (hnil ▸ h.1) nofun
  rw [if_neg hnil]
  obtain ⟨hcount, hparse⟩ | ⟨key, name, hline, hparse⟩ | ⟨hcount, hno, f', hparse⟩ :=
    @parseFifopath_cases W folder a f (stale false) (containers false) hlen ha
  · rw [hparse]
    exact .undefined (.inl hcount)
  · have hone : (fifoTake f key name).1 = .ok ∧ (fifoTake f key name).2.folderPath = f.folderPath := by
      rw [fifoTake]
      split_ifs <;> first | exact ⟨rfl, rfl⟩ | omega
    simp only [hparse, hone.1, ne_eq, not_true_eq_false, if_false]
    by_cases hne : b = []
    · rw [if_pos hne]
      exact .noSecond (.inr ⟨key, name, hline, .inl hne⟩)
    rw [if_neg hne]
    obtain ⟨hcount, hparse'⟩ | ⟨key', name', hline', hparse'⟩ | ⟨hcount, hno, f', hparse'⟩ :=
      @parseFifopath_cases W folder b (fifoTake f key name).2 (stale true) (containers true)
        (by rw [hone.2, hlen]) hb
    · rw [hparse']
      exact .undefined (.inr ⟨key, name, hline, .inr (.inl hcount)⟩)
    · obtain ⟨hsame, hknown, herr⟩ | ⟨hdup, herr, hcomm⟩ := fifoTake_twice hline hline' hf hfolder htx hrx
      · simp only [hparse', herr, reduceCtorEq, not_false_eq_true, if_true]
        refine .refused_pair hline hline' (fun h => ?_) fun h => ?_
        · rcases ((fifoStray_iff hline hline' hne).1 h).1 with h | h
          · exact h hknown
          · exact h (hsame ▸ hknown)
        · rcases h.1 with ⟨hk, hk'⟩ | ⟨hk, hk'⟩ <;>
            exact absurd (hk.symm.trans (hsame.trans hk')) (by decide)
      · simp only [hparse', herr, not_true_eq_false, if_false]
        exact fifoExist_outcome hline hline' hne hdup hcomm.1 hcomm.2
    · rw [hparse']
      exact .refused_second hline hne (not_lt.2 hcount) hno
  · rw [hparse]
    exact .refused_first (not_lt.2 hcount) hno

theorem FifoOutcome.kept_iff {file : List UInt8} {result : Option (StdReturnType × CpuEmuFifoFileType)}
    (h : FifoOutcome W host folder (firstRead file) (secondRead file) result) :
    FifoKept host folder file result ↔ FifoFits W host folder file := by
  cases h with
  | undefined hstray =>
    refine iff_of_false ?_ fun h => h.1 hstray
    rintro ⟨err, f', heq, -⟩
    cases heq
  | noSecond hstray =>
    refine iff_of_false ?_ fun h => h.1 hstray
    rintro ⟨err, f', heq, hok, hpaths⟩
    cases heq
    obtain ⟨tx, rx, hpair⟩ := hok.1 rfl
    exact absurd (hpaths tx rx hpair).1 nofun
  | @accepted tx rx f hstray hpair htext htext' htx hrx =>
    constructor
    · rintro ⟨err, f', heq, hok, hpaths⟩
      cases heq
      refine ⟨hstray, fun tx' rx' => ⟨fun hpair' => ?_, fun hpair' => ?_⟩⟩
      · obtain ⟨h, h'⟩ := hpaths tx' rx' hpair'
        rw [htx, Option.some.injEq, append_cancel_left_eq] at h
        rw [hrx, Option.some.injEq, append_cancel_left_eq] at h'
        exact h ▸ h' ▸ ⟨hpair, htext, htext'⟩
      · obtain ⟨rfl, rfl⟩ := hpair.1.unique hpair'.1.1
        obtain ⟨tx', rx', hpair''⟩ := hok.1 rfl
        obtain ⟨h, h'⟩ := hpaths tx' rx' hpair''
        rw [htx, Option.some.injEq, append_cancel_left_eq] at h
        rw [hrx, Option.some.injEq, append_cancel_left_eq] at h'
        rwa [h, h']
    · rintro ⟨-, hsame⟩
      refine ⟨.ok, f, rfl, iff_of_true rfl ⟨tx, rx, (hsame tx rx).2 ⟨hpair, htext, htext'⟩⟩, ?_⟩
      intro tx' rx' hpair'
      obtain ⟨rfl, rfl⟩ := hpair.1.unique ((hsame tx' rx').1 hpair').1.1
      exact ⟨htx, hrx⟩
  | @refused f hstray hno =>
    constructor
    · rintro ⟨err, f', heq, hok, -⟩
      cases heq
      refine ⟨hstray, fun tx rx => iff_of_false (fun hpair => ?_) fun h => hno tx rx h.1 h.2.1 h.2.2⟩
      exact absurd (hok.2 ⟨tx, rx, hpair⟩) nofun
    · rintro ⟨-, hsame⟩
      have hnone : ∀ tx rx, ¬ FifoPair host folder (firstLine file) (secondLine file) tx rx :=
        fun tx rx hpair => hno tx rx ((hsame tx rx).1 hpair).1 ((hsame tx rx).1 hpair).2.1
          ((hsame tx rx).1 hpair).2.2
      refine ⟨.invalid, f, rfl, iff_of_false nofun ?_, fun tx rx hpair => absurd hpair (hnone tx rx)⟩
      rintro ⟨tx, rx, hpair⟩
      exact hnone tx rx hpair

theorem cpuemuSetCommFifocfg_outcome (stale : Bool → Nat → UInt8) (containers : Bool → TokenContainerType)
    {fifocfg : Bytes.CString} {file : List UInt8} (hfile : host.file fifocfg.bytes = some file)
    (htx : f.txPath.len = 0) (hrx : f.rxPath.len = 0) :
    FifoOutcome W host (parentFolder fifocfg.bytes) (firstRead file) (secondRead file)
      (cpuemuSetCommFifocfg W host stale containers f fifocfg) := by
  have hshort := host.file_short _ (Option.isSome_iff_exists.2 ⟨_, hfile⟩)
  have hset : (tokenStringSet {} fifocfg).1 = true ∧
      (tokenStringSet {} fifocfg).2.len = fifocfg.bytes.length := by
    rw [tokenStringSet, Nat.mod_eq_of_lt (hshort.trans (by decide)), if_neg (by omega)]
    exact ⟨rfl, rfl⟩
  have hfolder : (parentFolder fifocfg.bytes).length < tokenStringMaxSize := by
    rw [parentFolder, length_take]
    omega
  have hzero : 0 ∉ parentFolder fifocfg.bytes := fun h => fifocfg.ne_zero 0 (mem_of_mem_take h) rfl
  rw [cpuemuSetCommFifocfg, hset.1, hset.2, if_neg (by decide), if_neg (not_le.2 hshort), hfile]
  exact fifoLines_outcome stale containers (terminatedFrom_terminated hfolder hzero 0).1 bytes_terminated
    htx hrx (length_firstRead _) (length_firstRead _)

end

/-- The result of `cpuemu_set_comm_fifocfg` is the documented one exactly for the files that `FifoFits`
describes. -/
theorem cpuemu_set_comm_fifocfg_iff {W : Nat} {host : FifoHost} (stale : Bool → Nat → UInt8)
    (containers : Bool → TokenContainerType) {f : CpuEmuFifoFileType} {fifocfg : Bytes.CString}
    {file : List UInt8} (hfile : host.file fifocfg.bytes = some file) (htx : f.txPath.len = 0)
    (hrx : f.rxPath.len = 0) :
    FifoKept host (parentFolder fifocfg.bytes) file (cpuemuSetCommFifocfg W host stale containers f fifocfg) ↔
      FifoFits W host (parentFolder fifocfg.bytes) file :=
  (cpuemuSetCommFifocfg_outcome stale containers hfile htx hrx).kept_iff

def oneFileHost (file : List UInt8) : FifoHost where
  file path := if path = [99] then some file else none
  fileExist path := path.length < tokenStringMaxSize
  file_short path h := by
    split_ifs at h with hpath
    · rw [hpath]
      decide
    · cases h
  fileExist_short _ h := of_decide_eq_true h

def twoFifos : List UInt8 := tokenName ['T', 'X', ' ', 'a', '\n', 'R', 'X', ' ', 'b']

theorem fifoFits_twoFifos : FifoFits 32 (oneFileHost twoFifos) (parentFolder [99]) twoFifos := by
  have hread : firstRead twoFifos = firstLine twoFifos ∧ secondRead twoFifos = secondLine twoFifos := by
    decide +kernel
  have hline : FifoLine 32 (parentFolder [99]) (firstLine twoFifos) fifoTxString [97] :=
    ⟨by decide +kernel, rfl, rfl, fun _ => by decide⟩
  have hline' : FifoLine 32 (parentFolder [99]) (secondLine twoFifos) fifoRxString [98] :=
    ⟨by decide +kernel, rfl, rfl, fun _ => by decide⟩
  rw [FifoFits, hread.1, hread.2]
  refine ⟨fun h => ?_, fun tx rx => ⟨fun h => ⟨h, ?_⟩, And.left⟩⟩
  · exact absurd ((fifoStray_iff hline hline' (by decide +kernel)).1 h).1 (by decide)
  · obtain ⟨rfl, rfl⟩ := NamesFifos.unique (.inl ⟨hline.1, hline'.1⟩) h.1
    exact ⟨rfl, rfl⟩

theorem cpuemu_set_comm_fifocfg_two : FifoKept (oneFileHost twoFifos) (parentFolder [99]) twoFifos
    (cpuemuSetCommFifocfg 32 (oneFileHost twoFifos) (fun _ _ => 0)
      (fun _ => ⟨0, fun _ => ⟨.unknown, {}⟩⟩) {} ⟨[99], by simp⟩) :=
  (cpuemu_set_comm_fifocfg_iff _ _ rfl rfl rfl).2 fifoFits_twoFifos

theorem not_fifoKept_of_fifoStray {file : List UInt8} (stale : Bool → Nat → UInt8)
    (containers : Bool → TokenContainerType)
    (h : FifoStray 32 (oneFileHost file) (parentFolder [99]) (firstRead file) (secondRead file)) :
    ¬ FifoKept (oneFileHost file) (parentFolder [99]) file
      (cpuemuSetCommFifocfg 32 (oneFileHost file) stale containers {} ⟨[99], by simp⟩) := by
  have hout := @cpuemuSetCommFifocfg_outcome 32 (oneFileHost file) {} stale containers
    ⟨[99], by simp⟩ file rfl rfl rfl
  exact fun hkept => (hout.kept_iff.1 hkept).1 h

/-- The file has one line, `TX a`: the result is `STD_E_OK`. With `FOO b` behind it the RX path is used
that is not set. -/
theorem cpuemu_set_comm_fifocfg_one :
    (let file := tokenName ['T', 'X', ' ', 'a']
     ¬ FifoKept (oneFileHost file) (parentFolder [99]) file
      (cpuemuSetCommFifocfg 32 (oneFileHost file) (fun _ _ => 0)
        (fun _ => ⟨0, fun _ => ⟨.unknown, {}⟩⟩) {} ⟨[99], by simp⟩)) ∧
    (let file := tokenName ['T', 'X', ' ', 'a', '\n', 'F', 'O', 'O', ' ', 'b']
     ¬ FifoKept (oneFileHost file) (parentFolder [99]) file
      (cpuemuSetCommFifocfg 32 (oneFileHost file) (fun _ _ => 0)
        (fun _ => ⟨0, fun _ => ⟨.unknown, {}⟩⟩) {} ⟨[99], by simp⟩)) := by
  refine ⟨not_fifoKept_of_fifoStray _ _ (.inr ?_), not_fifoKept_of_fifoStray _ _ (.inr ?_)⟩
  · exact ⟨fifoTxString, [97], ⟨by decide +kernel, rfl, rfl, fun _ => by decide⟩, .inl (by decide +kernel)⟩
  · exact ⟨fifoTxString, [97], ⟨by decide +kernel, rfl, rfl, fun _ => by decide⟩, .inr (.inr
      ⟨tokenName ['F', 'O', 'O'], [98], ⟨by decide +kernel, rfl, rfl, fun _ => by decide⟩,
        .inr (by decide), nofun, nofun⟩)⟩

end Athrill
