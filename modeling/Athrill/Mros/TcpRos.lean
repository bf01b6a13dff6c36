import Athrill.Lib.Bytes
import Athrill.StdTypes

/-!
# TCPROS headers

`mros_tcprospacket_decode` walks the entries of a connection header by their lengths, and
`encode_tcpros_topic_req` builds such a header. Main result: `mros_tcprospacket_decode_iff`.
-/

namespace Athrill

open Bytes List

/-- `data` has `total_size` bytes, the first `data_size` of which are used. -/
structure MRosPacketType where
  data : List UInt8
  dataSize : Nat

inductive TcpRosKey
  | callerid
  | md5sum
  | tcpNodely
  | topic
  | type
  deriving DecidableEq, Repr

namespace TcpRosKey

def text : TcpRosKey → List UInt8
  | .callerid => ascii ['c', 'a', 'l', 'l', 'e', 'r', 'i', 'd', '=']
  | .md5sum => ascii ['m', 'd', '5', 's', 'u', 'm', '=']
  | .tcpNodely => ascii ['t', 'c', 'p', '_', 'n', 'o', 'd', 'e', 'l', 'y', '=']
  | .topic => ascii ['t', 'o', 'p', 'i', 'c', '=']
  | .type => ascii ['t', 'y', 'p', 'e', '=']

def all : List TcpRosKey := [.callerid, .md5sum, .tcpNodely, .topic, .type]

theorem mem_all (key : TcpRosKey) : key ∈ all := by
  cases key <;> decide

theorem length_text_le (key : TcpRosKey) : key.text.length ≤ 11 := by
  cases key <;> decide

end TcpRosKey

/-- A pointer into the packet with its 16-bit length. -/
structure TcpRosField where
  off : Nat
  len : Nat
  deriving DecidableEq, Repr

abbrev MRosTcpRosPacketType := TcpRosKey → Option TcpRosField

structure TcpRosEntry where
  off : Nat
  len : Nat
  deriving DecidableEq, Repr

/-! ## The decoder -/

def keyCmpEq (data : List UInt8) : List UInt8 → Nat → Option Bool
  | [], _ => some true
  | c :: cs, off => do
    let b ← data[off]?
    if b = c then keyCmpEq data cs (off + 1) else some false

def tcpRosField (key : TcpRosKey) (entry : TcpRosEntry) : TcpRosField where
  off := u32 (entry.off + key.text.length)
  len := u32 (2 ^ 32 - key.text.length + entry.len) % 2 ^ 16

def noteKey (data : List UInt8) (entry : TcpRosEntry) (fields : MRosTcpRosPacketType) (key : TcpRosKey) :
    Option MRosTcpRosPacketType := do
  let same ← keyCmpEq data key.text entry.off
  some (if same then Function.update fields key (some (tcpRosField key entry)) else fields)

def tcpRosEntries (data : List UInt8) (len : Nat) :
    Nat → Nat → MRosTcpRosPacketType → Option (Except CFault MRosTcpRosPacketType)
  | 0, _, _ => none
  | n + 1, off, fields =>
    if off < len then
      if off + 4 ≤ data.length then
        if len ≤ u32 (off + 4) then some (.ok fields)
        else
          match TcpRosKey.all.foldlM (noteKey data ⟨u32 (off + 4), leAt data off 4⟩) fields with
          | some fields => tcpRosEntries data len n (u32 (u32 (off + 4) + leAt data off 4)) fields
          | none => some (.error .outside)
      else some (.error .outside)
    else some (.ok fields)

def terminate (fields : MRosTcpRosPacketType) (data : List UInt8) (key : TcpRosKey) : Option (List UInt8) :=
  match fields key with
  | none => some data
  | some f => if f.off + f.len < data.length then some (data.set (f.off + f.len) 0) else none

def mrosTcprospacketDecode (n : Nat) (packet : MRosPacketType) :
    Option (Except CFault (MRosTcpRosPacketType × List UInt8)) :=
  match tcpRosEntries packet.data packet.dataSize n 0 fun _ => none with
  | none => none
  | some (.error e) => some (.error e)
  | some (.ok fields) =>
    match TcpRosKey.all.foldlM (terminate fields) packet.data with
    | some data => some (.ok (fields, data))
    | none => some (.error .outside)

/-- With enough fuel the decoder returns these fields and these bytes. -/
def MRosPacketType.DecodesTo (packet : MRosPacketType) (fields : MRosTcpRosPacketType)
    (data : List UInt8) : Prop :=
  ∃ n₀, ∀ n ≥ n₀, mrosTcprospacketDecode n packet = some (.ok (fields, data))

/-! ## The walk over the entries -/

/-- The entries that the lengths lead to from an offset on; a length at the very end has no entry. -/
inductive HeaderWalk (data : List UInt8) (len : Nat) : Nat → List TcpRosEntry → Prop
  | done {off : Nat} : len ≤ off → HeaderWalk data len off []
  | stub {off : Nat} : off < len → off + 4 ≤ data.length → len ≤ off + 4 → HeaderWalk data len off []
  | entry {off : Nat} {es : List TcpRosEntry} : off + 4 < len →
      (∀ key : TcpRosKey, (keyCmpEq data key.text (off + 4)).isSome) →
      HeaderWalk data len (u32 (off + 4 + leAt data off 4)) es →
      HeaderWalk data len off (⟨off + 4, leAt data off 4⟩ :: es)

def noteEntry (data : List UInt8) (fields : MRosTcpRosPacketType) (entry : TcpRosEntry) :
    MRosTcpRosPacketType := fun key =>
  if keyCmpEq data key.text entry.off = some true then some (tcpRosField key entry) else fields key

def lastEntry (data : List UInt8) (key : TcpRosKey) (es : List TcpRosEntry) : Option TcpRosEntry :=
  es.reverse.find? fun e => keyCmpEq data key.text e.off = some true

variable {data data' : List UInt8} {len off n : Nat} {fields fields' : MRosTcpRosPacketType}
  {entry : TcpRosEntry} {es : List TcpRosEntry} {key : TcpRosKey}

theorem foldlM_noteKey {keys : List TcpRosKey} :
    keys.foldlM (noteKey data entry) fields = some fields' ↔
      (∀ key ∈ keys, (keyCmpEq data key.text entry.off).isSome) ∧
        fields' = fun key => if key ∈ keys then noteEntry data fields entry key else fields key := by
  induction keys generalizing fields with
  | nil => simpa using eq_comm
  | cons k ks ih =>
    rw [foldlM_cons, noteKey]
    cases hk : keyCmpEq data k.text entry.off with
    | none => simp [hk]
    | some same =>
      have hnote : (fun key => if key ∈ ks then noteEntry data
            (if same then Function.update fields k (some (tcpRosField k entry)) else fields) entry key
          else (if same then Function.update fields k (some (tcpRosField k entry)) else fields) key) =
          fun key => if key ∈ k :: ks then noteEntry data fields entry key else fields key := by
        funext key
        by_cases hkey : key = k
        · subst hkey
          cases same <;> simp [noteEntry, hk]
        · cases same <;> simp [noteEntry, hkey]
      simp [ih, hnote, hk]

theorem foldlM_noteKey_all :
    TcpRosKey.all.foldlM (noteKey data entry) fields = some fields' ↔
      (∀ key : TcpRosKey, (keyCmpEq data key.text entry.off).isSome) ∧
        fields' = noteEntry data fields entry := by
  simp [foldlM_noteKey, TcpRosKey.mem_all]

theorem foldl_noteEntry :
    (es.foldl (noteEntry data) fields) key =
      ((lastEntry data key es).map (tcpRosField key)).or (fields key) := by
  induction es generalizing fields with
  | nil => rfl
  | cons e es ih =>
    rw [foldl_cons, ih, lastEntry, lastEntry, reverse_cons, find?_append]
    by_cases he : keyCmpEq data key.text e.off = some true
    · cases es.reverse.find? _ <;> simp [noteEntry, he]
    · cases es.reverse.find? _ <;> simp [noteEntry, he]

section

variable (hdata : data.length < 2 ^ 32)
include hdata

theorem tcpRosEntries_of_walk (hlen : len ≤ data.length) (hwalk : HeaderWalk data len off es) :
    ∃ n₀, ∀ n ≥ n₀, ∀ fields,
      tcpRosEntries data len n off fields = some (.ok (es.foldl (noteEntry data) fields)) := by
  induction hwalk with
  | done hoff =>
    refine ⟨1, fun n hn fields => ?_⟩
    obtain ⟨n, rfl⟩ := Nat.exists_eq_add_of_le' hn
    rw [tcpRosEntries, if_neg (by omega), foldl_nil]
  | @stub off hoff hread hend =>
    refine ⟨1, fun n hn fields => ?_⟩
    obtain ⟨n, rfl⟩ := Nat.exists_eq_add_of_le' hn
    have hu : u32 (off + 4) = off + 4 := Nat.mod_eq_of_lt (by omega)
    rw [tcpRosEntries, if_pos hoff, if_pos hread, hu, if_pos hend, foldl_nil]
  | @entry off es hoff hkeys _ ih =>
    obtain ⟨n₀, hn₀⟩ := ih
    refine ⟨n₀ + 1, fun n hn fields => ?_⟩
    obtain ⟨n, rfl⟩ := Nat.exists_eq_add_of_le' (Nat.le_of_add_left_le hn)
    have hu : u32 (off + 4) = off + 4 := Nat.mod_eq_of_lt (by omega)
    rw [tcpRosEntries, if_pos (by omega), if_pos (by omega), hu, if_neg (by omega),
      foldlM_noteKey_all.2 ⟨hkeys, rfl⟩]
    exact hn₀ n (by omega) _

theorem walk_of_tcpRosEntries (h : tcpRosEntries data len n off fields = some (.ok fields')) :
    ∃ es, HeaderWalk data len off es ∧ fields' = es.foldl (noteEntry data) fields := by
  induction n generalizing off fields with
  | zero => cases h
  | succ n ih =>
    rw [tcpRosEntries] at h
    split_ifs at h with hoff hread hend
    · have hu : u32 (off + 4) = off + 4 := Nat.mod_eq_of_lt (by omega)
      cases h
      exact ⟨[], .stub hoff hread (by omega), rfl⟩
    · have hu : u32 (off + 4) = off + 4 := Nat.mod_eq_of_lt (by omega)
      rw [hu] at h hend
      cases hfold : TcpRosKey.all.foldlM (noteKey data ⟨off + 4, leAt data off 4⟩) fields with
      | none => simp [hfold] at h
      | some next =>
        obtain ⟨hkeys, rfl⟩ := foldlM_noteKey_all.1 hfold
        rw [hfold] at h
        obtain ⟨es, hes, rfl⟩ := ih h
        exact ⟨_, .entry (by omega) hkeys hes, rfl⟩
    · cases h
    · cases h
      exact ⟨[], .done (by omega), rfl⟩

end

theorem HeaderWalk.mem (h : HeaderWalk data len off es) (hmem : entry ∈ es) :
    4 ≤ entry.off ∧ entry.len = leAt data (entry.off - 4) 4 ∧ entry.off < len := by
  induction h with
  | done => cases hmem
  | stub => cases hmem
  | entry hoff _ _ ih =>
    cases hmem with
    | head => exact ⟨by simp, by simp, hoff⟩
    | tail _ hmem => exact ih hmem

/-! ## The terminators -/

theorem terminate_isSome {keys : List TcpRosKey} :
    (∃ data', keys.foldlM (terminate fields) data = some data') ↔
      ∀ key ∈ keys, ∀ f, fields key = some f → f.off + f.len < data.length := by
  induction keys generalizing data with
  | nil => simp
  | cons k ks ih =>
    rw [foldlM_cons, terminate]
    cases hk : fields k with
    | none => simpa [hk] using ih
    | some f =>
      by_cases hf : f.off + f.len < data.length
      · simp [hk, hf, ih]
      · simp [hk, hf]

theorem getElem?_terminate {keys : List TcpRosKey} {i : Nat}
    (h : keys.foldlM (terminate fields) data = some data')
    (hi : ∀ key f, fields key = some f → i ≠ f.off + f.len) : data'[i]? = data[i]? := by
  induction keys generalizing data with
  | nil =>
    cases h
    rfl
  | cons k ks ih =>
    rw [foldlM_cons, terminate] at h
    cases hk : fields k with
    | none => exact ih (by simpa [hk] using h)
    | some f =>
      by_cases hf : f.off + f.len < data.length
      · rw [ih (by simpa [hk, hf] using h), getElem?_set_ne (hi k f hk).symm]
      · simp [hk, hf] at h

theorem MRosPacketType.decodesTo_iff {packet : MRosPacketType}
    (hsize : packet.dataSize ≤ packet.data.length) (hdata : packet.data.length < 2 ^ 32) :
    packet.DecodesTo fields data ↔
      ∃ es, HeaderWalk packet.data packet.dataSize 0 es ∧
        (fields = fun key => (lastEntry packet.data key es).map (tcpRosField key)) ∧
        TcpRosKey.all.foldlM (terminate fields) packet.data = some data := by
  constructor
  · rintro ⟨n, hn⟩
    have h := hn n le_rfl
    rw [mrosTcprospacketDecode] at h
    split at h
    next => cases h
    next => cases h
    next fields₁ hentries =>
      cases hfold : TcpRosKey.all.foldlM (terminate fields₁) packet.data with
      | none => simp [hfold] at h
      | some data₁ =>
        simp only [hfold, Option.some.injEq, Except.ok.injEq, Prod.mk.injEq] at h
        obtain ⟨rfl, rfl⟩ := h
        obtain ⟨es, hes, rfl⟩ := walk_of_tcpRosEntries hdata hentries
        exact ⟨es, hes, funext fun key => by rw [foldl_noteEntry, Option.or_none], hfold⟩
  · rintro ⟨es, hes, rfl, hfold⟩
    obtain ⟨n₀, hn₀⟩ := tcpRosEntries_of_walk hdata hsize hes
    refine ⟨n₀, fun n hn => ?_⟩
    have hfields : (es.foldl (noteEntry packet.data) fun _ => none) =
        fun key => (lastEntry packet.data key es).map (tcpRosField key) :=
      funext fun key => by rw [foldl_noteEntry, Option.or_none]
    simp only [mrosTcprospacketDecode, hn₀ n hn, hfields, hfold]

/-! ## Fields inside the header -/

theorem keyCmpEq_of_lastEntry (h : lastEntry data key es = some entry) :
    entry ∈ es ∧ keyCmpEq data key.text entry.off = some true :=
  ⟨by simpa using mem_of_find?_eq_some h, by simpa using find?_some h⟩

end Athrill
