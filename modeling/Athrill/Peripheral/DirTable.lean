import Athrill.Lib.History
import Athrill.Peripheral.SyscallSteps

/-!
# Directories of the guest (`device/peripheral/athrill_syscall_device.c`)

`dir_table` has ten entries, and the number of an entry, counted from 1, is the id that the guest uses. Main
results: `ev3_directories_ok_iff`, `ev3_directories_refine`.
-/

namespace Athrill

open Bytes StateExcept Machine History List Option Function

/-! ## Requests -/

def dirId (i : Fin 10) : BitVec 32 := BitVec.ofNat 32 (i.val + 1)

inductive ReaddirOutcome
  | entry (stat : Bool)
  | ended (errno : Int)

def ReaddirOutcome.retValue : ReaddirOutcome → Int
  | .entry true => 0
  | .entry false => -5
  | .ended errno => if errno = 0 then -41 else -18

/-- A request of the guest, with what the host answers if it is called. -/
inductive DirRequest
  | opendir (path : CString) (dir : Option Nat)
  | readdir (dirid : BitVec 32) (outcome : ReaddirOutcome)
  | closedir (dirid : BitVec 32) (ret : Int)

def DirRequest.dirid : DirRequest → Option (BitVec 32)
  | .opendir _ _ => none
  | .readdir dirid _ => some dirid
  | .closedir dirid _ => some dirid

inductive HostDirCall
  | opendir (path : CString) (dir : Option Nat)
  | readdir (dir : Option Nat)
  | closedir (dir : Option Nat) (ret : Int)

def HostDirCall.stream : HostDirCall → Option (Option Nat)
  | .opendir _ _ => none
  | .readdir dir => some dir
  | .closedir dir _ => some dir

/-- A request with the call it makes, what the guest is told, and the table before and after. -/
structure DirSeen where
  request : DirRequest
  call : Option HostDirCall
  retValue : Option Int
  dirid : Option (BitVec 32)
  before : DirTable
  after : DirTable

def dirOpendir (t : DirTable) (path : CString) (dir : Option Nat) : DirSeen :=
  match getFreeDir t with
  | none => ⟨.opendir path dir, none, some (-34), none, t, t⟩
  | some i =>
    match dir with
    | none => ⟨.opendir path none, some (.opendir path none), none, some (BitVec.ofInt 32 (-17)), t,
        update t i ⟨false, (t i).path, none⟩⟩
    | some d => ⟨.opendir path (some d), some (.opendir path (some d)), some 0, some (dirId i), t,
        update t i ⟨true, path, some d⟩⟩

def dirReaddir (t : DirTable) (dirid : BitVec 32) (outcome : ReaddirOutcome) : DirSeen :=
  match getDir dirid with
  | none => ⟨.readdir dirid outcome, none, some (-18), none, t, t⟩
  | some i => ⟨.readdir dirid outcome, some (.readdir (t i).dir), some outcome.retValue, none, t, t⟩

def dirClosedir (t : DirTable) (dirid : BitVec 32) (ret : Int) : DirSeen :=
  match getDir dirid with
  | none => ⟨.closedir dirid ret, none, some (-18), none, t, t⟩
  | some i =>
    if ret = 0 then
      ⟨.closedir dirid ret, some (.closedir (t i).dir ret), some 0, none, t,
        update t i { t i with isUsed := false }⟩
    else ⟨.closedir dirid ret, some (.closedir (t i).dir ret), some (-18), none, t, t⟩

def dirServe (t : DirTable) : DirRequest → DirSeen
  | .opendir path dir => dirOpendir t path dir
  | .readdir dirid outcome => dirReaddir t dirid outcome
  | .closedir dirid ret => dirClosedir t dirid ret

/-! ## Histories -/

structure DirRun where
  table : DirTable
  seen : List DirSeen

def DirRun.init : DirRun := ⟨fun _ => ⟨false, .ofBytes [], none⟩, []⟩

def dirStep (s : DirRun) (r : DirRequest) : Option (DirRun × Unit) :=
  some (⟨(dirServe s.table r).after, s.seen ++ [dirServe s.table r]⟩, ())

def DirSeen.dirs (dirs : List (BitVec 32 × Nat)) (x : DirSeen) : List (BitVec 32 × Nat) :=
  match x.call, x.dirid, x.request.dirid with
  | some (.opendir _ (some d)), some id, _ => (id, d) :: dirs
  | some (.closedir (some d) ret), _, some id => if ret = 0 then dirs.erase (id, d) else dirs
  | _, _, _ => dirs

def openDirs (seen : List DirSeen) : List (BitVec 32 × Nat) := seen.foldl DirSeen.dirs []

def DirSeenOk (seen : List DirSeen) (x : DirSeen) : Prop :=
  ∀ id, x.request.dirid = some id →
    (∀ dir, x.call.bind HostDirCall.stream = some dir → ∃ d, dir = some d ∧ (id, d) ∈ openDirs seen) ∧
    ((∀ d, (id, d) ∉ openDirs seen) → x.call = none ∧ x.retValue = some (-18) ∧ x.after = x.before)

/-- The calls reach the open directory they name or fail with -18; at most ten are open, under distinct ids.
-/
structure DirsOk (seen : List DirSeen) : Prop where
  each : Each DirSeenOk seen
  distinct : ((openDirs seen).map Prod.fst).Nodup
  few : (openDirs seen).length ≤ 10

/-- The request names an open directory. -/
def NamesOpen (s : DirRun) (r : DirRequest) : Prop :=
  ∀ id, r.dirid = some id → ∀ i, getDir id = some i → (s.table i).isUsed = true

/-! ## Entries in use are open directories -/

structure DirKept (s : DirRun) : Prop where
  each : Each DirSeenOk s.seen
  distinct : ((openDirs s.seen).map Prod.fst).Nodup
  held : ∀ id d, (id, d) ∈ openDirs s.seen ↔
    ∃ i, id = dirId i ∧ (s.table i).isUsed = true ∧ (s.table i).dir = some d
  stream : ∀ i, (s.table i).isUsed = true → ∃ d, (s.table i).dir = some d

section
variable {i j : Fin 10} {id : BitVec 32} {s : DirRun} {t : DirTable}

theorem getDir_dirId : ∀ i, getDir (dirId i) = some i := by
  decide

theorem getDir_eq_some : getDir id = some i ↔ id = dirId i := by
  constructor
  · intro h
    unfold getDir at h
    split_ifs at h with hlt
    cases h
    rw [dirId, BitVec.ofNat_add, BitVec.ofNat_toNat, BitVec.setWidth_eq]
    exact (BitVec.sub_add_cancel id 1).symm
  · rintro rfl
    exact getDir_dirId i

theorem dirId_inj (h : dirId i = dirId j) : i = j := by
  have hi := getDir_dirId i
  rw [h, getDir_dirId] at hi
  exact (some.inj hi).symm

theorem isUsed_of_getFreeDir (h : getFreeDir t = some i) : (t i).isUsed = false := by
  simpa using find?_some h

theorem openDirs_concat (seen : List DirSeen) (x : DirSeen) :
    openDirs (seen ++ [x]) = x.dirs (openDirs seen) := by
  rw [openDirs, foldl_concat]
  rfl

theorem dirKept_init : DirKept .init where
  each := each_nil
  distinct := nodup_nil
  held id d := by simp [openDirs, DirRun.init]
  stream i hi := by cases hi

theorem DirKept.open_of_used (hk : DirKept s) (hi : (s.table i).isUsed = true) :
    ∃ d, (s.table i).dir = some d ∧ (dirId i, d) ∈ openDirs s.seen := by
  obtain ⟨d, hd⟩ := hk.stream i hi
  exact ⟨d, hd, (hk.held _ d).2 ⟨i, rfl, hi, hd⟩⟩

variable {d : Nat} {x : DirSeen}

theorem DirKept.used_of_open (hk : DirKept s) (h : (dirId i, d) ∈ openDirs s.seen) :
    (s.table i).isUsed = true := by
  obtain ⟨j, hj, hused, -⟩ := (hk.held _ d).1 h
  rwa [dirId_inj hj]

theorem DirKept.few (hk : DirKept s) : (openDirs s.seen).length ≤ 10 := by
  have hsub : (openDirs s.seen).map Prod.fst ⊆ (finRange 10).map dirId := by
    intro id hid
    obtain ⟨⟨id', d⟩, hmem, rfl⟩ := mem_map.1 hid
    obtain ⟨i, hi, -⟩ := (hk.held id' d).1 hmem
    exact mem_map.2 ⟨i, mem_finRange i, hi.symm⟩
  simpa using (hk.distinct.subperm hsub).length_le

theorem DirKept.seenOk_iff (hk : DirKept s) (r : DirRequest) :
    DirSeenOk s.seen (dirServe s.table r) ↔ NamesOpen s r := by
  have hread : ∀ {id : BitVec 32} {x : DirSeen}, x.request.dirid = some id →
      (getDir id = none → x.call = none ∧ x.retValue = some (-18) ∧ x.after = x.before) →
      (∀ i, getDir id = some i → x.call.bind HostDirCall.stream = some (s.table i).dir) →
      (DirSeenOk s.seen x ↔ ∀ i, getDir id = some i → (s.table i).isUsed = true) := by
    intro id x hid hnone hsome
    constructor
    · intro hok i hi
      obtain ⟨d, -, hopen⟩ := (hok id hid).1 _ (hsome i hi)
      rw [getDir_eq_some.1 hi] at hopen
      exact hk.used_of_open hopen
    · intro hused id' hid'
      obtain rfl := some.inj (hid.symm.trans hid')
      rcases hget : getDir id with _ | i
      · obtain ⟨hcall, hret, hafter⟩ := hnone hget
        exact ⟨fun dir hdir => by simp [hcall] at hdir, fun _ => ⟨hcall, hret, hafter⟩⟩
      · obtain ⟨d, hd, hopen⟩ := hk.open_of_used (hused i hget)
        rw [← getDir_eq_some.1 hget] at hopen
        refine ⟨fun dir hdir => ⟨d, ?_, hopen⟩, fun hclosed => absurd hopen (hclosed d)⟩
        rw [← hd, some.inj ((hsome i hget).symm.trans hdir)]
  cases r with
  | opendir path dir =>
    have hno : (dirServe s.table (.opendir path dir)).request.dirid = none := by
      simp only [dirServe, dirOpendir]
      split
      · rfl
      · split <;> rfl
    refine iff_of_true (fun id hid => ?_) fun id hid => by cases hid
    rw [hno] at hid
    cases hid
  | readdir id outcome =>
    simp only [NamesOpen, DirRequest.dirid, some.injEq, forall_eq']
    refine hread ?_ (fun hnone => ?_) fun i hi => ?_
    · simp only [dirServe, dirReaddir]
      split <;> rfl
    · simp [dirServe, dirReaddir, hnone]
    · simp [dirServe, dirReaddir, hi, HostDirCall.stream]
  | closedir id ret =>
    simp only [NamesOpen, DirRequest.dirid, some.injEq, forall_eq']
    refine hread ?_ (fun hnone => ?_) fun i hi => ?_
    · simp only [dirServe, dirClosedir]
      split
      · rfl
      · split_ifs <;> rfl
    · simp [dirServe, dirClosedir, hnone]
    · simp only [dirServe, dirClosedir, hi]
      split_ifs <;> rfl

theorem held_update {dirs : List (BitVec 32 × Nat)} {e : DirElement} {id : BitVec 32}
    (hself : (dirId i, d) ∈ dirs ↔ e.isUsed = true ∧ e.dir = some d)
    (hother : ∀ j, j ≠ i → ((dirId j, d) ∈ dirs ↔ (t j).isUsed = true ∧ (t j).dir = some d))
    (hids : (id, d) ∈ dirs → ∃ j, id = dirId j) :
    (id, d) ∈ dirs ↔ ∃ j, id = dirId j ∧ (update t i e j).isUsed = true ∧
      (update t i e j).dir = some d := by
  have heach : ∀ j, (dirId j, d) ∈ dirs ↔ (update t i e j).isUsed = true ∧
      (update t i e j).dir = some d := by
    intro j
    by_cases hj : j = i
    · subst hj
      rwa [update_self]
    · rw [update_of_ne hj]
      exact hother j hj
  constructor
  · intro hmem
    obtain ⟨j, rfl⟩ := hids hmem
    exact ⟨j, rfl, (heach j).1 hmem⟩
  · rintro ⟨j, rfl, hj⟩
    exact (heach j).2 hj

theorem DirKept.held_dirId (hk : DirKept s) (j : Fin 10) (d : Nat) :
    (dirId j, d) ∈ openDirs s.seen ↔ (s.table j).isUsed = true ∧ (s.table j).dir = some d := by
  rw [hk.held]
  constructor
  · rintro ⟨k, hk, hused⟩
    rwa [dirId_inj hk]
  · exact fun h => ⟨j, rfl, h⟩

theorem DirKept.ids (hk : DirKept s) (h : (id, d) ∈ openDirs s.seen) : ∃ j, id = dirId j := by
  obtain ⟨j, hj, -⟩ := (hk.held id d).1 h
  exact ⟨j, hj⟩

theorem DirKept.unchanged (hk : DirKept s) (hok : DirSeenOk s.seen x)
    (hdirs : x.dirs (openDirs s.seen) = openDirs s.seen) : DirKept ⟨s.table, s.seen ++ [x]⟩ where
  each := each_concat.2 ⟨hk.each, hok⟩
  distinct := by rw [openDirs_concat, hdirs]; exact hk.distinct
  held := by rw [openDirs_concat, hdirs]; exact hk.held
  stream := hk.stream

theorem DirKept.opened (hk : DirKept s) (hfree : (s.table i).isUsed = false) {path : CString}
    (hok : DirSeenOk s.seen x) (hdirs : x.dirs (openDirs s.seen) = (dirId i, d) :: openDirs s.seen) :
    DirKept ⟨update s.table i ⟨true, path, some d⟩, s.seen ++ [x]⟩ := by
  have hnew : ∀ d', (dirId i, d') ∉ openDirs s.seen := fun d' hmem => by
    simp [hk.used_of_open hmem] at hfree
  refine ⟨each_concat.2 ⟨hk.each, hok⟩, ?_, fun id d' => ?_, fun j hj => ?_⟩
  · rw [openDirs_concat, hdirs, map_cons, nodup_cons]
    refine ⟨fun hmem => ?_, hk.distinct⟩
    obtain ⟨⟨id, d'⟩, hmem', rfl⟩ := mem_map.1 hmem
    exact hnew d' hmem'
  · rw [openDirs_concat, hdirs]
    refine held_update ?_ (fun j hj => ?_) fun hmem => ?_
    · simp [hnew d', eq_comm]
    · rw [mem_cons, or_iff_right fun heq => hj (dirId_inj (Prod.mk.inj heq).1)]
      exact hk.held_dirId j d'
    · rcases mem_cons.1 hmem with heq | hmem
      · exact ⟨i, (Prod.mk.inj heq).1⟩
      · exact hk.ids hmem
  · by_cases hji : j = i
    · subst hji
      exact ⟨d, by simp⟩
    · dsimp only at hj ⊢
      rw [update_of_ne hji] at hj ⊢
      exact hk.stream j hj

theorem DirKept.released (hk : DirKept s) {e : DirElement} (he : e.isUsed = false)
    (hok : DirSeenOk s.seen x) (hnodup : (x.dirs (openDirs s.seen)).Sublist (openDirs s.seen))
    (hself : ∀ d, (dirId i, d) ∉ x.dirs (openDirs s.seen))
    (hother : ∀ j d, j ≠ i → ((dirId j, d) ∈ x.dirs (openDirs s.seen) ↔ (dirId j, d) ∈ openDirs s.seen)) :
    DirKept ⟨update s.table i e, s.seen ++ [x]⟩ := by
  refine ⟨each_concat.2 ⟨hk.each, hok⟩, ?_, fun id d => ?_, fun j hj => ?_⟩
  · rw [openDirs_concat]
    exact hk.distinct.sublist (hnodup.map Prod.fst)
  · rw [openDirs_concat]
    refine held_update ?_ (fun j hj => ?_) fun hmem => hk.ids (hnodup.subset hmem)
    · simp [hself d, he]
    · rw [hother j d hj]
      exact hk.held_dirId j d
  · by_cases hji : j = i
    · subst hji
      dsimp only at hj
      rw [update_self, he] at hj
      cases hj
    · dsimp only at hj ⊢
      rw [update_of_ne hji] at hj ⊢
      exact hk.stream j hj

theorem DirKept.serve (hk : DirKept s) {r : DirRequest} (hr : NamesOpen s r) :
    DirKept ⟨(dirServe s.table r).after, s.seen ++ [dirServe s.table r]⟩ := by
  have hok : DirSeenOk s.seen (dirServe s.table r) := (hk.seenOk_iff r).2 hr
  cases r with
  | opendir path dir =>
    simp only [dirServe, dirOpendir] at hok ⊢
    rcases hfind : getFreeDir s.table with _ | i
    · simp only [hfind] at hok ⊢
      exact hk.unchanged hok rfl
    · have hfree := isUsed_of_getFreeDir hfind
      cases dir with
      | none =>
        simp only [hfind] at hok ⊢
        refine hk.released rfl hok (.refl _) (fun d hmem => ?_) fun _ _ _ => .rfl
        rw [hk.used_of_open hmem] at hfree
        cases hfree
      | some d =>
        simp only [hfind] at hok ⊢
        exact hk.opened hfree hok rfl
  | readdir id outcome =>
    simp only [dirServe, dirReaddir] at hok ⊢
    rcases hget : getDir id with _ | i <;> simp only [hget] at hok ⊢
    · exact hk.unchanged hok rfl
    · exact hk.unchanged hok rfl
  | closedir id ret =>
    simp only [dirServe, dirClosedir] at hok ⊢
    rcases hget : getDir id with _ | i
    · simp only [hget] at hok ⊢
      exact hk.unchanged hok rfl
    · obtain ⟨d, hd, hopen⟩ := hk.open_of_used (hr id rfl i hget)
      obtain rfl := getDir_eq_some.1 hget
      simp only [hget, hd] at hok ⊢
      by_cases hret : ret = 0
      · subst hret
        simp only [if_true] at hok ⊢
        refine hk.released rfl hok erase_sublist (fun d' hmem => ?_) fun j d' hj => ?_
        · obtain ⟨hne, hmem⟩ := hk.distinct.of_map.mem_erase_iff.1 hmem
          obtain rfl := some.inj (hd.symm.trans ((hk.held_dirId i d').1 hmem).2)
          exact hne rfl
        · exact mem_erase_of_ne fun heq => hj (dirId_inj (Prod.mk.inj heq).1)
      · simp only [if_neg hret] at hok ⊢
        exact hk.unchanged hok (if_neg hret)

end

theorem DirKept.ok {s : DirRun} (hk : DirKept s) : DirsOk s.seen := ⟨hk.each, hk.distinct, hk.few⟩

/-- **Directories of the guest.** In every sequence of requests, whatever the host answers, the following
holds after each request if and only if every request names an id that is not the number of an entry, or
that of an entry in use: `readdir` and `closedir` of the host are given only a stream that was opened for the
id of the request and not closed since, an id that is not open is answered with -18 and has no effect, and
at most ten directories are open, with distinct ids. -/
theorem ev3_directories_ok_iff (requests : List DirRequest) :
    (∀ pre s os, pre <+: requests → run dirStep .init pre = some (s, os) → DirsOk s.seen) ↔
      StepsMeet dirStep NamesOpen .init requests := by
  refine forall_prefix_iff_stepsMeet_of_inv DirKept (fun s => DirsOk s.seen) (fun _ hk => hk.ok)
    (fun s r hk => ⟨_, _, rfl, hk.serve, fun hok => ?_⟩) requests dirKept_init
  exact (hk.seenOk_iff r).1 (each_concat.1 hok.each).2

/-- A directory that is closed twice: `closedir` of the host is given a stream that is closed. -/
theorem ev3_directory_closed_twice : ∃ s os,
    run dirStep .init [.opendir (.ofChars ['d'] rfl) (some 3), .closedir 1 0, .closedir 1 0] = some (s, os) ∧
      ¬ DirsOk s.seen := by
  refine ⟨_, _, rfl, fun hok => ?_⟩
  obtain ⟨d, -, hopen⟩ := ((each_concat.1 hok.each).2 1 rfl).1 (some 3) (by decide)
  have hnone : openDirs (([] ++ [dirServe DirRun.init.table (.opendir (.ofChars ['d'] rfl) (some 3))]) ++
      [dirServe (dirServe DirRun.init.table (.opendir (.ofChars ['d'] rfl) (some 3))).after
        (.closedir 1 0)]) = [] := by decide
  rw [DirRun.init] at hnone
  exact not_mem_nil (hnone ▸ hopen)

/-! ## The handlers -/

section
variable {W : Nat} {host : HostOs} {s s' : SyscallState W} {arg : GuestPointer W} {x : DirSeen}

structure DirSeen.Stored (x : DirSeen) (arg : GuestPointer W) (s' : SyscallState W) : Prop where
  table : s'.dirTable = x.after
  retValue : ∀ v, x.retValue = some v → s'.field arg 4 = BitVec.ofInt 32 v
  dirid : ∀ id, x.dirid = some id → s'.field arg 16 = id

def opendirPath (host : HostOs) (s : SyscallState W) (path : BitVec 32) : CString :=
  ((s.fileTop host).append slash).append (s.string (s.lookupUnchecked path))

def opendirRequest (host : HostOs) (s : SyscallState W) (path : BitVec 32) : DirRequest :=
  .opendir (opendirPath host s path) (host.opendir (opendirPath host s path))

def readdirOutcome (host : HostOs) (dir : DirElement) : ReaddirOutcome :=
  match nextEntry (host.readdir dir.dir).1 with
  | some entry => .entry (host.stat ((dir.path.append slash).append entry)).isSome
  | none => .ended (host.readdir dir.dir).2

def readdirRequest (host : HostOs) (t : DirTable) (dirid : BitVec 32) : DirRequest :=
  .readdir dirid (((getDir dirid).map fun i => readdirOutcome host (t i)).getD (.ended 0))

def closedirRequest (host : HostOs) (t : DirTable) (dirid : BitVec 32) : DirRequest :=
  .closedir dirid (((getDir dirid).map fun i => host.closedir (t i).dir).getD 0)

@[simp] theorem dirTable_setDir {i : Fin 10} {d : DirElement} :
    (s.setDir i d).dirTable = update s.dirTable i d := rfl

@[simp] theorem dirTable_withArg {off n : Nat} {v : Int} :
    (s.withArg arg off n v).dirTable = s.dirTable := rfl

theorem stored_setRetValue (harg : ArgInside s arg) {v : Int} (htable : s.dirTable = x.after)
    (hv : x.retValue = some v) (hid : x.dirid = none) : x.Stored arg (s.withArg arg 4 4 v) where
  table := htable
  retValue v' hv' := by
    obtain rfl := some.inj (hv.symm.trans hv')
    exact field_withArg_ofInt harg (by decide) v
  dirid id h := by
    rw [hid] at h
    cases h

theorem closedir_stored (harg : ArgInside s arg) :
    Wp True (athrillSyscallEv3Closedir host arg) s fun _ s' =>
      (dirServe s.dirTable (closedirRequest host s.dirTable (s.field arg 12))).Stored arg s' := by
  simp only [athrillSyscallEv3Closedir, wp_bind,
    wp_argField harg (show 12 + 4 ≤ syscallArgSize by decide), closedirRequest, dirServe,
    dirClosedir]
  cases getDir (s.field arg 12) with
  | none =>
    simp only [wp_setRetValue harg]
    exact stored_setRetValue harg rfl rfl rfl
  | some i =>
    simp only [wp_bind, wp_get, wp_ite, map_some, getD_some, releaseDir, wp_modify]
    split_ifs with hzero
    · rw [wp_setRetValue (argInside_setDir.2 harg)]
      exact stored_setRetValue (argInside_setDir.2 harg) rfl rfl rfl
    · rw [wp_setRetValue harg]
      exact stored_setRetValue harg rfl rfl rfl

theorem readdirStat_stored (harg : ArgInside s arg) {st : Option HostStat} (htable : s.dirTable = x.after)
    (hv : x.retValue = some (ReaddirOutcome.entry st.isSome).retValue) (hid : x.dirid = none) :
    Wp True (readdirStat arg st) s fun _ s' => x.Stored arg s' := by
  cases st with
  | none =>
    rw [readdirStat, wp_setRetValue harg]
    exact stored_setRetValue harg htable hv hid
  | some st =>
    have hret : ∀ {s : SyscallState W}, ArgInside s arg → s.dirTable = x.after →
        Wp True (setRetValue arg 0) s fun _ s' => x.Stored arg s' := by
      intro s harg htable
      rw [wp_setRetValue harg]
      exact stored_setRetValue harg htable hv hid
    simp only [readdirStat, wp_bind, wp_ite, wp_setArg, argInside_withArg, harg, show 20 + 2 ≤ 32 by decide,
      show 22 + 2 ≤ 32 by decide, show 16 + 4 ≤ 32 by decide, show 24 + 1 ≤ 32 by decide]
    split_ifs <;> exact hret (by simpa using harg) htable

theorem readdir_stored (harg : ArgInside s arg) :
    Wp True (athrillSyscallEv3Readdir host arg) s fun _ s' =>
      (dirServe s.dirTable (readdirRequest host s.dirTable (s.field arg 12))).Stored arg s' := by
  simp only [athrillSyscallEv3Readdir, wp_bind,
    wp_argField harg (show 12 + 4 ≤ syscallArgSize by decide), readdirRequest, dirServe,
    dirReaddir]
  cases getDir (s.field arg 12) with
  | none =>
    simp only [wp_setRetValue harg]
    exact stored_setRetValue harg rfl rfl rfl
  | some i =>
    simp only [wp_bind, wp_get, map_some, getD_some, readdirOutcome]
    cases nextEntry (host.readdir (s.dirTable i).dir).1 with
    | none =>
      simp only [wp_ite, wp_setRetValue harg]
      split_ifs with h <;> exact stored_setRetValue harg rfl (by simp [ReaddirOutcome.retValue, h]) rfl
    | some entry =>
      simp only [readdirAt, wp_bind, wp_onPointer, wp_orAssert, readdirInto, wp_store, wp_get,
        wp_loadString, wp_useOwn, implies_true, true_and, if_true_right,
        wp_argField harg (show 28 + 4 ≤ syscallArgSize by decide)]
      intro p _ hin _ _
      refine readdirStat_stored (by simpa using harg) rfl ?_ rfl
      have hname : ((s.looked (s.field arg 28)).written p 0 (entry.bytes ++ [0])).string p = entry :=
        CString.eq_of_bytes (bytes_string_written hin)
      rw [hname]
      rfl

theorem opendir_stored (harg : ArgInside s arg) :
    Wp True (athrillSyscallEv3Opendir host arg) s fun _ s' =>
      (dirServe s.dirTable (opendirRequest host s (s.field arg 12))).Stored arg s' := by
  simp only [athrillSyscallEv3Opendir, wp_bind, wp_get, opendirRequest, dirServe, dirOpendir]
  cases getFreeDir s.dirTable with
  | none =>
    simp only [wp_setRetValue harg]
    exact stored_setRetValue harg rfl rfl rfl
  | some i =>
    simp only [opendirAt, wp_bind, wp_modify, wp_onPointer, wp_orAssert, wp_getVirtualFileName,
      wp_argField (argInside_setDir.2 harg) (show 12 + 4 ≤ syscallArgSize by decide),
      field_setDir, lookup_setDir, implies_true, true_and]
    intro p hp _ _
    have hpath : ((s.fileTop host).append slash).append (s.string p) = opendirPath host s (s.field arg 12) := by
      rw [opendirPath, lookupUnchecked_of_ok hp]
    simp only [fileTop_looked, fileTop_setDir, string_looked, string_setDir, hpath]
    have hin : ArgInside (((s.setDir i { s.dirTable i with isUsed := true }).looked (s.field arg 12)).withTop
      (s.fileTop host)) arg := harg
    have htable : (((s.setDir i { s.dirTable i with isUsed := true }).looked (s.field arg 12)).withTop
      (s.fileTop host)).dirTable = update s.dirTable i { s.dirTable i with isUsed := true } := rfl
    -- The table of this state is all that the rest of the call takes of it.
    generalize ((s.setDir i { s.dirTable i with isUsed := true }).looked (s.field arg 12)).withTop
      (s.fileTop host) = t at hin htable ⊢
    cases host.opendir (opendirPath host s (s.field arg 12)) with
    | none =>
      simp (disch := decide) only [isNone_none, if_true, wp_bind, releaseDir, wp_modify,
        wp_setArg (argInside_setDir.2 hin)]
      refine ⟨?_, fun v hv => ?_, fun id hid => ?_⟩
      · simp [htable]
      · cases hv
      · cases hid
        exact field_withArg_ofInt (argInside_setDir.2 hin) (by decide) (-17)
    | some d =>
      have hin' := argInside_setDir (i := i) (d := { t.dirTable i with dir := some d }).2 hin
      simp (disch := decide) only [isNone_some, Bool.false_eq_true, if_false, wp_bind, wp_modify, wp_useOwn,
        if_true_right, wp_setRetValue hin', wp_setArg (argInside_withArg.2 hin')]
      refine fun _ => ⟨?_, fun v hv => ?_, fun id hid => ?_⟩
      · simp [htable]
      · cases hv
        rw [field_setDir, field_withArg_of_apart (argInside_withArg.2 hin') (by decide) (by decide) (by decide),
          field_withArg_ofInt hin' (by decide)]
      · cases hid
        rw [field_setDir, field_withArg_ofInt (argInside_withArg.2 hin') (by decide)]
        exact BitVec.ofInt_natCast _ _

/-! ## Requests one after the other -/

inductive DirApi
  | opendir
  | readdir
  | closedir

def DirApi.handler (host : HostOs) (arg : GuestPointer W) : DirApi → Syscall W Unit
  | .opendir => athrillSyscallEv3Opendir host arg
  | .readdir => athrillSyscallEv3Readdir host arg
  | .closedir => athrillSyscallEv3Closedir host arg

def DirApi.request (host : HostOs) (s : SyscallState W) (arg : GuestPointer W) : DirApi → DirRequest
  | .opendir => opendirRequest host s (s.field arg 12)
  | .readdir => readdirRequest host s.dirTable (s.field arg 12)
  | .closedir => closedirRequest host s.dirTable (s.field arg 12)

/-- A call of a handler that returned, with the state in which it found the device and the one it left. -/
structure DirCall (W : Nat) where
  host : HostOs
  api : DirApi
  arg : GuestPointer W
  before : SyscallState W
  after : SyscallState W
  inside : ArgInside before arg
  returned : api.handler host arg before = .ok ((), after)

def DirCall.request (c : DirCall W) : DirRequest := c.api.request c.host c.before c.arg

/-- Between two calls the guest and the host do what they like, but nothing else writes the table. -/
def DirCalls : DirTable → List (DirCall W) → Prop
  | _, [] => True
  | t, c :: cs => c.before.dirTable = t ∧ DirCalls c.after.dirTable cs

theorem DirCall.stored (c : DirCall W) : (dirServe c.before.dirTable c.request).Stored c.arg c.after := by
  obtain ⟨host, api, arg, before, after, hinside, hreturned⟩ := c
  cases api with
  | opendir => exact (wp_of_ok hreturned).1 (opendir_stored hinside)
  | readdir => exact (wp_of_ok hreturned).1 (readdir_stored hinside)
  | closedir => exact (wp_of_ok hreturned).1 (closedir_stored hinside)

/-- **The handlers are the table.** Whatever the guest and the host do between the calls, a sequence of calls of
the directory handlers is a run of the directory table, and leaves in the argument blocks what the run answers. -/
theorem ev3_directories_refine (cs : List (DirCall W)) {r : DirRun} (h : DirCalls r.table cs) :
    ∃ r' xs, run dirStep r (cs.map DirCall.request) = some (r', cs.map fun _ => ()) ∧ r'.seen = r.seen ++ xs ∧
      Forall₂ (fun x c => x.Stored c.arg c.after) xs cs := by
  induction cs generalizing r with
  | nil => exact ⟨r, [], rfl, (append_nil _).symm, .nil⟩
  | cons c cs ih =>
    obtain ⟨htable, hrest⟩ := h
    have hstored := c.stored
    rw [htable] at hstored
    rw [hstored.table] at hrest
    obtain ⟨r', xs, hrun, hseen, hall⟩ :=
      ih (r := ⟨(dirServe r.table c.request).after, r.seen ++ [dirServe r.table c.request]⟩) hrest
    refine ⟨r', dirServe r.table c.request :: xs, run_cons_eq_some.2 ⟨_, (), _, rfl, hrun, rfl⟩, ?_,
      .cons hstored hall⟩
    rw [hseen, append_assoc, singleton_append]

/-- An argument block, whose field at 12 is `field`, and a string behind it. -/
def dirState (field : Nat) (t : DirTable) : SyscallState 32 :=
  guestRam (replicate 12 0 ++ Bytes.leBytes 4 field ++ replicate 12 0 ++ Bytes.leBytes 4 0x1020 ++ [100, 0] ++
    replicate 30 0) t

/-- A host on which `opendir` gives the stream 7, with one entry. -/
def dirHost : HostOs :=
  { failingHost with
    opendir := fun _ => some 7
    readdir := fun _ => ([.ofBytes [97]], 0)
    closedir := fun _ => 0
    stat := fun _ => some ⟨0, 0, 0, 0, 5, false⟩ }

def dirResult (api : DirApi) (field : Nat) (t : DirTable) : Except SyscallStop (Unit × SyscallState 32) :=
  api.handler dirHost ramArg (dirState field t)

def dirCall (api : DirApi) (field : Nat) (t : DirTable) (h : (dirResult api field t).toBool = true) :
    DirCall 32 where
  host := dirHost
  api := api
  arg := ramArg
  before := dirState field t
  after := ((dirResult api field t).toOption.map (·.2)).getD (dirState field t)
  inside := argInside_guestRam rfl t
  returned := by
    show dirResult api field t = _
    cases hr : dirResult api field t with
    | error e => simp [hr, Except.toBool] at h
    | ok p => rfl

theorem dirTable_dirCall {api : DirApi} {field : Nat} {t : DirTable} (h : (dirResult api field t).toBool = true) :
    (dirCall api field t h).before.dirTable = t := rfl

def opendirCall : DirCall 32 := dirCall .opendir 0x1020 DirRun.init.table (by decide +kernel)

def readdirCall : DirCall 32 := dirCall .readdir 1 opendirCall.after.dirTable (by decide +kernel)

def closedirCall : DirCall 32 := dirCall .closedir 1 readdirCall.after.dirTable (by decide +kernel)

def dirPath : CString := ev3rtfs.append (slash.append (.ofBytes [100]))

/-- The guest opens a directory, which takes an entry of the table, reads a name and closes it. -/
theorem ev3_directories_refine_open_read_close :
    DirCalls DirRun.init.table [opendirCall, readdirCall, closedirCall] ∧
    opendirCall.after.dirTable 0 = ⟨true, dirPath, some 7⟩ ∧ readdirCall.after.field ramArg 4 = 0 ∧
    (closedirCall.after.dirTable 0).isUsed = false ∧
    ∃ r' xs, run dirStep DirRun.init [.opendir dirPath (some 7), .readdir 1 (.entry true), .closedir 1 0] =
        some (r', [(), (), ()]) ∧ r'.seen = DirRun.init.seen ++ xs ∧
      Forall₂ (fun x c => x.Stored c.arg c.after) xs [opendirCall, readdirCall, closedirCall] := by
  have hcalls : DirCalls DirRun.init.table [opendirCall, readdirCall, closedirCall] :=
    ⟨dirTable_dirCall _, dirTable_dirCall _, dirTable_dirCall _, trivial⟩
  have hopen : opendirCall.request = .opendir dirPath (some 7) := rfl
  have hread : readdirCall.request = .readdir 1 (.entry true) := rfl
  have hclose : closedirCall.request = .closedir 1 0 := rfl
  have hrefine := ev3_directories_refine _ hcalls
  simp only [map_cons, map_nil, hopen, hread, hclose] at hrefine
  exact ⟨hcalls, rfl, by decide +kernel, by decide +kernel, hrefine⟩

end

end Athrill
