import Athrill.Mros.TcpRos

/-!
# TCPROS requests

`encode_tcpros_topic_req` prints a request with a mark of four bytes for each length and then writes the
lengths over the marks. Main result: `encode_tcpros_topic_req_decode_iff`.
-/

namespace Athrill

open Bytes List Option

/-! ## The encoder -/

structure TcpRosReqArg where
  callerid : CString
  topic : CString
  type : CString
  md5sum : CString

def TcpRosReqArg.argv (arg : TcpRosReqArg) : List CString := [arg.callerid, arg.topic, arg.type, arg.md5sum]

def TcpRosReqArg.texts (arg : TcpRosReqArg) : List (List UInt8) :=
  [ascii ['c', 'a', 'l', 'l', 'e', 'r', 'i', 'd', '='] ++ arg.callerid.bytes,
    ascii ['t', 'c', 'p', '_', 'n', 'o', 'd', 'e', 'l', 'a', 'y', '=', '1'],
    ascii ['t', 'o', 'p', 'i', 'c', '='] ++ arg.topic.bytes,
    ascii ['t', 'y', 'p', 'e', '='] ++ arg.type.bytes,
    ascii ['m', 'd', '5', 's', 'u', 'm', '='] ++ arg.md5sum.bytes]

def sizeMark : List UInt8 := ascii ['S', 'I', 'Z', 'E']

def getArglen (argv : List CString) : Nat := argv.foldl (fun len s => u32 (len + s.bytes.length + 1)) 0

def tcprosTopicReqFmtLen : Nat := 73

def snprintfAtZero (data text : List UInt8) : List UInt8 :=
  if data.length = 0 then data
  else text.take (data.length - 1) ++ 0 :: data.drop (min text.length (data.length - 1) + 1)

def addLen (data : List UInt8) (off len : Nat) : Option (List UInt8) :=
  if off + 4 ≤ data.length then some (data.take off ++ Bytes.leBytes 4 len ++ data.drop (off + 4)) else none

def addLens : Nat → List Nat → List UInt8 → Option (List UInt8)
  | _, [], data => some data
  | off, len :: lens, data => do
    let data ← addLen data off len
    addLens (u32 (off + (4 + len))) lens data

def encodeTcprosTopicReq (arg : TcpRosReqArg) (packet : MRosPacketType) :
    Option (MRosReturnType × MRosPacketType) :=
  if packet.data.length < u32 (getArglen arg.argv + tcprosTopicReqFmtLen) then some (.nomem, packet)
  else do
    let request := sizeMark ++ arg.texts.flatMap (sizeMark ++ ·)
    -- Every part is printed into the buffer for its length and then overwritten.
    let data := snprintfAtZero (arg.texts.foldl snprintfAtZero packet.data) request
    let data ← addLen data 0 (u32 (2 ^ 32 - 4 + u32 request.length))
    let data ← addLens 4 (arg.texts.map fun text => u32 text.length) data
    some (.ok, ⟨data, u32 request.length⟩)

/-! ## What is sent -/

variable {data data' text before after : List UInt8} {texts : List (List UInt8)} {off : Nat}
  {key : TcpRosKey} {fields : MRosTcpRosPacketType}

theorem length_snprintfAtZero : (snprintfAtZero data text).length = data.length := by
  rw [snprintfAtZero]
  split_ifs with h
  · rfl
  · simp
    omega

theorem snprintfAtZero_of_lt (h : text.length < data.length) :
    ∃ rest, snprintfAtZero data text = text ++ 0 :: rest := by
  refine ⟨data.drop (text.length + 1), ?_⟩
  rw [snprintfAtZero, if_neg (by omega), take_of_length_le (by omega), Nat.min_eq_left (by omega)]

theorem length_foldl_snprintfAtZero : (texts.foldl snprintfAtZero data).length = data.length := by
  induction texts generalizing data with
  | nil => rfl
  | cons text texts ih => rw [foldl_cons, ih, length_snprintfAtZero]

theorem addLen_mark (len : Nat) : addLen (before ++ (sizeMark ++ after)) before.length len =
    some (before ++ (Bytes.leBytes 4 len ++ after)) := by
  have hmark : sizeMark.length = 4 := rfl
  rw [addLen, if_pos (by simp [hmark]), take_left, ← append_assoc before sizeMark,
    drop_left' (by simp [hmark]), append_assoc]

def tcpRosEntryBytes (text : List UInt8) : List UInt8 := Bytes.leBytes 4 text.length ++ text

@[simp] theorem length_tcpRosEntryBytes : (tcpRosEntryBytes text).length = 4 + text.length := by
  simp [tcpRosEntryBytes]

theorem addLens_marks (h : (before ++ texts.flatMap tcpRosEntryBytes).length < 2 ^ 32) :
    addLens before.length (texts.map fun text => u32 text.length)
        (before ++ (texts.flatMap (sizeMark ++ ·) ++ after)) =
      some (before ++ (texts.flatMap tcpRosEntryBytes ++ after)) := by
  induction texts generalizing before with
  | nil => rfl
  | cons text texts ih =>
    have hlen : (before ++ tcpRosEntryBytes text).length = before.length + (4 + text.length) := by simp
    simp only [flatMap_cons, length_append, length_tcpRosEntryBytes] at h
    have htext : u32 text.length = text.length := Nat.mod_eq_of_lt (by omega)
    have hoff : u32 (before.length + (4 + text.length)) = (before ++ tcpRosEntryBytes text).length :=
      hlen ▸ Nat.mod_eq_of_lt (by omega)
    have hrest := @ih (before ++ tcpRosEntryBytes text) (by rw [length_append, hlen]; omega)
    simp only [map_cons, addLens, htext, flatMap_cons, append_assoc, addLen_mark, hoff,
      bind_eq_bind, bind_some]
    simpa only [tcpRosEntryBytes, append_assoc] using hrest

theorem length_flatMap_mark :
    (texts.flatMap (sizeMark ++ ·)).length = (texts.flatMap tcpRosEntryBytes).length := by
  have hmark : sizeMark.length = 4 := rfl
  simp [length_flatMap, hmark]

def TcpRosReqArg.body (arg : TcpRosReqArg) : List UInt8 := arg.texts.flatMap tcpRosEntryBytes

theorem TcpRosReqArg.length_body (arg : TcpRosReqArg) :
    arg.body.length = 60 + (arg.argv.map fun s => s.bytes.length).sum := by
  simp [body, texts, argv, ascii]
  omega

theorem encodeTcprosTopicReq_sent {arg : TcpRosReqArg} {packet : MRosPacketType}
    (hdata : packet.data.length < 2 ^ 32)
    (hfit : (arg.argv.map fun s => s.bytes.length).sum + 77 ≤ packet.data.length) :
    ∃ sent, encodeTcprosTopicReq arg packet = some (.ok, sent) ∧ sent.dataSize = 4 + arg.body.length ∧
      leAt sent.data 0 4 = arg.body.length ∧ sent.dataSize ≤ sent.data.length ∧
      slice sent.data 4 (sent.dataSize - 4) = arg.body := by
  have hbody := arg.length_body
  have hargs : u32 (getArglen arg.argv + tcprosTopicReqFmtLen) =
      (arg.argv.map fun s => s.bytes.length).sum + 77 := by
    simp only [TcpRosReqArg.argv, map_cons, map_nil, sum_cons, sum_nil] at hfit ⊢
    simp only [getArglen, foldl_cons, foldl_nil, tcprosTopicReqFmtLen, u32]
    omega
  have hrequest : (sizeMark ++ arg.texts.flatMap (sizeMark ++ ·)).length = 4 + arg.body.length := by
    rw [length_append, length_flatMap_mark]
    rfl
  obtain ⟨rest, hprint⟩ := @snprintfAtZero_of_lt (arg.texts.foldl snprintfAtZero packet.data)
    (sizeMark ++ arg.texts.flatMap (sizeMark ++ ·)) (by rw [hrequest, length_foldl_snprintfAtZero]; omega)
  have hsize : u32 (4 + arg.body.length) = 4 + arg.body.length := Nat.mod_eq_of_lt (by omega)
  have hfirst : u32 (2 ^ 32 - 4 + (4 + arg.body.length)) = arg.body.length := by
    rw [u32]
    omega
  have hzero := @addLen_mark [] (arg.texts.flatMap (sizeMark ++ ·) ++ 0 :: rest) arg.body.length
  have hlt : (Bytes.leBytes 4 arg.body.length ++ arg.body).length < 2 ^ 32 := by
    rw [length_append, length_leBytes]
    omega
  have hlens := @addLens_marks (Bytes.leBytes 4 arg.body.length) (0 :: rest) arg.texts hlt
  rw [length_leBytes] at hlens
  simp only [nil_append, length_nil] at hzero
  refine ⟨⟨Bytes.leBytes 4 arg.body.length ++ (arg.body ++ 0 :: rest), 4 + arg.body.length⟩, ?_, rfl, ?_,
    by simp, ?_⟩
  · rw [encodeTcprosTopicReq, if_neg (by omega)]
    simp only [hprint, hrequest, hsize, hfirst, append_assoc, hzero, hlens, bind_eq_bind,
      bind_some]
    rfl
  · rw [leAt, slice, drop_zero, take_left' (length_leBytes ..), leValue_leBytes]
    exact Nat.mod_eq_of_lt (by omega)
  · rw [Nat.add_sub_cancel_left, slice, drop_left' (length_leBytes ..), take_left]

/-! ## How it is decoded -/

def textEntries : Nat → List (List UInt8) → List TcpRosEntry
  | _, [] => []
  | off, text :: texts => ⟨off + 4, text.length⟩ :: textEntries (off + 4 + text.length) texts

def TcpRosEntry.Holds (data : List UInt8) (entry : TcpRosEntry) (text : List UInt8) : Prop :=
  entry.len = text.length ∧ ∃ before after, data = before ++ (text ++ after) ∧ entry.off = before.length

variable {entry entry' : TcpRosEntry}

theorem keyCmpEq_append {cs : List UInt8} {i : Nat} {same : Bool} (h : keyCmpEq text cs i = some same) :
    keyCmpEq (before ++ (text ++ after)) cs (before.length + i) = some same := by
  induction cs generalizing i with
  | nil => exact h
  | cons c cs ih =>
    rw [keyCmpEq] at h ⊢
    cases hb : text[i]? with
    | none => simp [hb] at h
    | some b =>
      have hlt : i < text.length := (List.getElem?_eq_some_iff.1 hb).1
      have hget : (before ++ (text ++ after))[before.length + i]? = some b := by
        rw [getElem?_append_right (by omega), Nat.add_sub_cancel_left, getElem?_append_left hlt, hb]
      simp only [hb, hget, bind_eq_bind, bind_some] at h ⊢
      split_ifs at h ⊢ with hc
      · exact ih h
      · exact h

theorem TcpRosEntry.Holds.keyCmpEq {cs : List UInt8} {same : Bool} (h : entry.Holds data text)
    (hcmp : Athrill.keyCmpEq text cs 0 = some same) : Athrill.keyCmpEq data cs entry.off = some same := by
  obtain ⟨-, before, after, rfl, hoff⟩ := h
  rw [hoff]
  exact keyCmpEq_append hcmp

theorem TcpRosEntry.Holds.slice {head : List UInt8} (h : entry.Holds data (head ++ text)) :
    Bytes.slice data (entry.off + head.length) text.length = text := by
  obtain ⟨-, before, after, rfl, hoff⟩ := h
  rw [hoff, Bytes.slice, append_assoc, ← append_assoc before, drop_left' (by simp),
    take_left]

theorem textEntries_holds :
    List.Forall₂ (TcpRosEntry.Holds (before ++ (texts.flatMap tcpRosEntryBytes ++ after)))
      (textEntries before.length texts) texts := by
  induction texts generalizing before with
  | nil => exact .nil
  | cons text texts ih =>
    refine .cons ⟨rfl, before ++ Bytes.leBytes 4 text.length, texts.flatMap tcpRosEntryBytes ++ after, ?_, ?_⟩ ?_
    · simp [tcpRosEntryBytes]
    · simp
    · have := @ih (before ++ tcpRosEntryBytes text)
      rw [length_append, length_tcpRosEntryBytes, ← Nat.add_assoc] at this
      simpa using this

theorem textEntries_bounds (h : entry ∈ textEntries off texts) :
    off + 4 ≤ entry.off ∧ entry.off + entry.len ≤ off + (texts.flatMap tcpRosEntryBytes).length := by
  induction texts generalizing off with
  | nil => cases h
  | cons text texts ih =>
    rw [flatMap_cons, length_append, length_tcpRosEntryBytes]
    cases h with
    | head => exact ⟨le_rfl, by simp only; omega⟩
    | tail _ h =>
      have := ih h
      omega

theorem textEntries_apart (h : entry ∈ textEntries off texts) (h' : entry' ∈ textEntries off texts) :
    entry.off + entry.len < entry'.off ∨ entry'.off + entry'.len ≤ entry.off + entry.len := by
  induction texts generalizing off with
  | nil => cases h
  | cons text texts ih =>
    cases h with
    | head =>
      cases h' with
      | head => exact .inr le_rfl
      | tail _ h' =>
        have := textEntries_bounds h'
        simp only
        omega
    | tail _ h =>
      cases h' with
      | head =>
        have := textEntries_bounds h
        simp only
        omega
      | tail _ h' => exact ih h h'

theorem leAt_entryBytes (h : text.length < 2 ^ 32) :
    leAt (before ++ (tcpRosEntryBytes text ++ after)) before.length 4 = text.length := by
  rw [leAt, slice, drop_left, tcpRosEntryBytes, append_assoc, take_left' (length_leBytes ..),
    leValue_leBytes]
  exact Nat.mod_eq_of_lt h

theorem headerWalk_texts
    (htexts : ∀ text ∈ texts, ∀ key : TcpRosKey, (keyCmpEq text key.text 0).isSome)
    (hlt : (before ++ texts.flatMap tcpRosEntryBytes).length < 2 ^ 32) :
    HeaderWalk (before ++ (texts.flatMap tcpRosEntryBytes ++ after))
      (before ++ texts.flatMap tcpRosEntryBytes).length before.length (textEntries before.length texts) := by
  induction texts generalizing before with
  | nil => exact .done (by simp)
  | cons text texts ih =>
    obtain ⟨hkeys, htexts⟩ := forall_mem_cons.1 htexts
    have hpos : 0 < text.length := by
      cases text with
      | nil => cases hkeys .callerid
      | cons => simp
    have hhead := (forall₂_cons.1 (@textEntries_holds before after (text :: texts))).1
    rw [flatMap_cons] at hlt hhead ⊢
    simp only [length_append, length_tcpRosEntryBytes] at hlt
    have hlen : leAt (before ++ (tcpRosEntryBytes text ++ texts.flatMap tcpRosEntryBytes ++ after))
        before.length 4 = text.length := by
      rw [append_assoc]
      exact leAt_entryBytes (by omega)
    have hnext : u32 (before.length + 4 + text.length) = before.length + 4 + text.length :=
      Nat.mod_eq_of_lt (by omega)
    have hbefore : (before ++ tcpRosEntryBytes text).length = before.length + 4 + text.length := by
      rw [length_append, length_tcpRosEntryBytes, Nat.add_assoc]
    have hrest := @ih (before ++ tcpRosEntryBytes text) htexts (by rw [length_append, hbefore]; omega)
    rw [textEntries, ← hlen]
    refine .entry (by simp only [length_append, length_tcpRosEntryBytes]; omega) (fun key => ?_) ?_
    · obtain ⟨same, hsame⟩ := isSome_iff_exists.1 (hkeys key)
      rw [hhead.keyCmpEq hsame, isSome_some]
    · rw [hlen, hnext]
      rw [hbefore] at hrest
      simpa only [append_assoc] using hrest

def TcpRosReqArg.string (arg : TcpRosReqArg) : TcpRosKey → Option CString
  | .callerid => some arg.callerid
  | .md5sum => some arg.md5sum
  | .tcpNodely => none
  | .topic => some arg.topic
  | .type => some arg.type

section

variable {arg : TcpRosReqArg} {tail : List UInt8}

theorem TcpRosReqArg.texts_decided : ∀ text ∈ arg.texts,
    ∀ key : TcpRosKey, (keyCmpEq text key.text 0).isSome := by
  intro text htext key
  simp only [texts, mem_cons, not_mem_nil, or_false] at htext
  rcases htext with rfl | rfl | rfl | rfl | rfl <;> cases key <;> rfl

theorem lastEntry_request (key : TcpRosKey) :
    (arg.string key = none ∧ lastEntry (arg.body ++ tail) key (textEntries 0 arg.texts) = none) ∨
      ∃ s entry, arg.string key = some s ∧
        lastEntry (arg.body ++ tail) key (textEntries 0 arg.texts) = some entry ∧
        entry.Holds (arg.body ++ tail) (key.text ++ s.bytes) ∧
        (key = .md5sum → entry.off + entry.len = arg.body.length) := by
  have hholds : List.Forall₂ (TcpRosEntry.Holds (arg.body ++ tail)) (textEntries 0 arg.texts) arg.texts :=
    @textEntries_holds [] tail arg.texts
  simp only [TcpRosReqArg.texts, textEntries, forall₂_cons, forall₂_nil_right_iff, and_true]
    at hholds ⊢
  obtain ⟨hcallerid, hnodelay, htopic, htype, hmd5sum⟩ := hholds
  have hcmp₁ : keyCmpEq (arg.body ++ tail) key.text _ = some (decide (key = .callerid)) :=
    hcallerid.keyCmpEq (by cases key <;> rfl)
  have hcmp₂ : keyCmpEq (arg.body ++ tail) key.text _ = some false :=
    hnodelay.keyCmpEq (by cases key <;> rfl)
  have hcmp₃ : keyCmpEq (arg.body ++ tail) key.text _ = some (decide (key = .topic)) :=
    htopic.keyCmpEq (by cases key <;> rfl)
  have hcmp₄ : keyCmpEq (arg.body ++ tail) key.text _ = some (decide (key = .type)) :=
    htype.keyCmpEq (by cases key <;> rfl)
  have hcmp₅ : keyCmpEq (arg.body ++ tail) key.text _ = some (decide (key = .md5sum)) :=
    hmd5sum.keyCmpEq (by cases key <;> rfl)
  simp only [lastEntry, reverse_cons, reverse_nil, nil_append, cons_append,
    find?_cons, find?_nil, hcmp₁, hcmp₂, hcmp₃, hcmp₄, hcmp₅]
  cases key with
  | callerid => exact .inr ⟨_, _, rfl, rfl, hcallerid, fun h => by cases h⟩
  | md5sum =>
    refine .inr ⟨_, _, rfl, rfl, hmd5sum, fun _ => ?_⟩
    simp [arg.length_body, TcpRosReqArg.argv, ascii]
    omega
  | tcpNodely => exact .inl ⟨rfl, rfl⟩
  | topic => exact .inr ⟨_, _, rfl, rfl, htopic, fun h => by cases h⟩
  | type => exact .inr ⟨_, _, rfl, rfl, htype, fun h => by cases h⟩

theorem HeaderWalk.unique {len : Nat} {es es' : List TcpRosEntry} (h : HeaderWalk data len off es)
    (h' : HeaderWalk data len off es') : es = es' := by
  induction h generalizing es' with
  | done =>
    cases h' with
    | done => rfl
    | stub => rfl
    | entry => omega
  | stub =>
    cases h' with
    | done => rfl
    | stub => rfl
    | entry => omega
  | entry _ _ _ ih =>
    cases h' with
    | done => omega
    | stub => omega
    | entry _ _ h' => rw [ih h']

def TcpRosReqArg.received (arg : TcpRosReqArg) (tail : List UInt8) : MRosPacketType where
  data := arg.body ++ tail
  dataSize := arg.body.length

/-- The four strings come out as they went in. -/
def TcpRosReqArg.DecodesStrings (arg : TcpRosReqArg) (packet : MRosPacketType) : Prop :=
  ∃ fields data, packet.DecodesTo fields data ∧ ∀ key s, arg.string key = some s →
    ∃ f, fields key = some f ∧ f.len = s.bytes.length ∧ slice data f.off f.len = s.bytes

theorem TcpRosReqArg.forall_argv {P : CString → Prop} :
    (∀ s ∈ arg.argv, P s) ↔ ∀ key s, arg.string key = some s → P s := by
  constructor
  · intro h key s hs
    refine h s ?_
    cases key <;> cases hs <;> simp [argv]
  · intro h
    simp only [argv, forall_mem_cons]
    exact ⟨h .callerid _ rfl, h .topic _ rfl, h .type _ rfl, h .md5sum _ rfl, nofun⟩

def TcpRosReqArg.decoded (arg : TcpRosReqArg) (tail : List UInt8) : MRosTcpRosPacketType := fun key =>
  (lastEntry (arg.body ++ tail) key (textEntries 0 arg.texts)).map (tcpRosField key)

theorem tcpRosField_of_holds {s : CString} (h : entry.Holds data (key.text ++ s.bytes))
    (hlt : data.length < 2 ^ 32) :
    tcpRosField key entry = ⟨entry.off + key.text.length, s.bytes.length % 2 ^ 16⟩ := by
  obtain ⟨hlen, before, after, rfl, hoff⟩ := h
  have := key.length_text_le
  simp only [length_append] at hlen hlt
  simp only [tcpRosField, u32, TcpRosField.mk.injEq]
  omega

section

variable (hlt : (arg.body ++ tail).length < 2 ^ 32)
include hlt

theorem decodesTo_received : (arg.received tail).DecodesTo fields data ↔
    fields = arg.decoded tail ∧ TcpRosKey.all.foldlM (terminate fields) (arg.body ++ tail) = some data := by
  have hbody : arg.body.length < 2 ^ 32 := by
    rw [length_append] at hlt
    omega
  have hwalk : HeaderWalk (arg.body ++ tail) arg.body.length 0 (textEntries 0 arg.texts) :=
    @headerWalk_texts [] tail arg.texts arg.texts_decided hbody
  rw [(arg.received tail).decodesTo_iff (by simp [TcpRosReqArg.received]) hlt]
  constructor
  · rintro ⟨es, hes, h⟩
    rw [hes.unique hwalk] at h
    exact h
  · intro h
    exact ⟨_, hwalk, h⟩

theorem decoded_cases (key : TcpRosKey) :
    (arg.string key = none ∧ arg.decoded tail key = none) ∨
      ∃ s entry, arg.string key = some s ∧ entry ∈ textEntries 0 arg.texts ∧
        arg.decoded tail key = some ⟨entry.off + key.text.length, s.bytes.length % 2 ^ 16⟩ ∧
        entry.Holds (arg.body ++ tail) (key.text ++ s.bytes) ∧
        (key = .md5sum → entry.off + entry.len = arg.body.length) := by
  obtain ⟨hnone, hlast⟩ | ⟨s, entry, hs, hlast, hholds, hend⟩ := @lastEntry_request arg tail key
  · exact .inl ⟨hnone, by rw [TcpRosReqArg.decoded, hlast, map_none]⟩
  · refine .inr ⟨s, entry, hs, (keyCmpEq_of_lastEntry hlast).1, ?_, hholds, hend⟩
    rw [TcpRosReqArg.decoded, hlast, map_some, tcpRosField_of_holds hholds hlt]

theorem decodesStrings_received_iff :
    arg.DecodesStrings (arg.received tail) ↔ (∀ s ∈ arg.argv, s.bytes.length < 2 ^ 16) ∧ tail ≠ [] := by
  rw [arg.forall_argv]
  constructor
  · rintro ⟨fields, data, hdec, hstrings⟩
    obtain ⟨rfl, hfold⟩ := (decodesTo_received hlt).1 hdec
    have hshort : ∀ key s, arg.string key = some s → s.bytes.length < 2 ^ 16 := by
      intro key s hs
      obtain ⟨f, hf, hlen, -⟩ := hstrings key s hs
      obtain ⟨hnone, -⟩ | ⟨s', entry, hs', -, hf', -⟩ := decoded_cases hlt key
      · cases hs.symm.trans hnone
      · cases hs.symm.trans hs'
        cases hf.symm.trans hf'
        exact hlen ▸ Nat.mod_lt _ (by decide)
    refine ⟨hshort, ?_⟩
    rintro rfl
    obtain ⟨hnone, -⟩ | ⟨s, entry, hs, -, hf, hholds, hend⟩ := decoded_cases hlt .md5sum
    · cases hnone
    · have hroom := terminate_isSome.1 ⟨_, hfold⟩ .md5sum (TcpRosKey.mem_all _) _ hf
      have hlen := hholds.1
      have hend := hend rfl
      have := hshort .md5sum s hs
      simp only [length_append, length_nil] at hroom hlen
      omega
  · rintro ⟨hshort, htail⟩
    have htail : 0 < tail.length := length_pos_of_ne_nil htail
    -- A terminator stands at the end of an entry.
    have hends : ∀ key f, arg.decoded tail key = some f →
        ∃ entry ∈ textEntries 0 arg.texts, f.off + f.len = entry.off + entry.len := by
      intro key f hf
      obtain ⟨-, hnone⟩ | ⟨s, entry, hs, hmem, hf', hholds, -⟩ := decoded_cases hlt key
      · cases hf.symm.trans hnone
      · cases hf.symm.trans hf'
        have := hshort key s hs
        have hlen := hholds.1
        rw [length_append] at hlen
        exact ⟨entry, hmem, by simp only; omega⟩
    have hfold : ∃ data,
        TcpRosKey.all.foldlM (terminate (arg.decoded tail)) (arg.body ++ tail) = some data := by
      refine terminate_isSome.2 fun key _ f hf => ?_
      obtain ⟨entry, hmem, hend⟩ := hends key f hf
      have : entry.off + entry.len ≤ 0 + arg.body.length := (textEntries_bounds hmem).2
      rw [length_append]
      omega
    obtain ⟨data, hfold⟩ := hfold
    refine ⟨_, data, (decodesTo_received hlt).2 ⟨rfl, hfold⟩, fun key s hs => ?_⟩
    obtain ⟨hnone, -⟩ | ⟨s', entry, hs', hmem, hf, hholds, -⟩ := decoded_cases hlt key
    · cases hs.symm.trans hnone
    · cases hs.symm.trans hs'
      have hlen := hholds.1
      rw [length_append] at hlen
      rw [Nat.mod_eq_of_lt (hshort key s hs)] at hf
      refine ⟨_, hf, rfl, Eq.trans (slice_congr fun k hk => getElem?_terminate hfold ?_) hholds.slice⟩
      intro key' f' hf'
      obtain ⟨entry', hmem', hend'⟩ := hends key' f' hf'
      have := textEntries_apart hmem' hmem
      simp only at hk ⊢
      omega

end

end

/-- The packets have a size that the result of `snprintf` can give. -/
theorem encode_tcpros_topic_req_decode_iff (arg : TcpRosReqArg) (packet : MRosPacketType) (tail : List UInt8)
    (hdata : packet.data.length < 2 ^ 31) (htail : tail.length < 2 ^ 31)
    (hfit : (arg.argv.map fun s => s.bytes.length).sum + 77 ≤ packet.data.length) :
    ∃ sent received, encodeTcprosTopicReq arg packet = some (.ok, sent) ∧
      received.dataSize = sent.dataSize - 4 ∧
      received.data = slice sent.data 4 (sent.dataSize - 4) ++ tail ∧
      leAt sent.data 0 4 = received.dataSize ∧ sent.dataSize ≤ sent.data.length ∧
      (∀ fields data, received.DecodesTo fields data → fields .tcpNodely = none) ∧
      (arg.DecodesStrings received ↔ (∀ s ∈ arg.argv, s.bytes.length < 2 ^ 16) ∧ tail ≠ []) := by
  obtain ⟨sent, hsent, hdataSize, hsize, hle, hbody⟩ := @encodeTcprosTopicReq_sent arg packet (by omega) hfit
  have hlt : (arg.body ++ tail).length < 2 ^ 32 := by
    rw [length_append, arg.length_body]
    omega
  refine ⟨sent, arg.received tail, hsent, ?_, by rw [hbody]; rfl, hsize, hle, ?_,
    decodesStrings_received_iff hlt⟩
  · rw [hdataSize, Nat.add_sub_cancel_left]
    rfl
  · intro fields data hdec
    obtain ⟨rfl, -⟩ := (decodesTo_received hlt).1 hdec
    obtain ⟨-, hnone⟩ | ⟨_, _, hs, -⟩ := decoded_cases hlt .tcpNodely
    · exact hnone
    · cases hs

def smallRequest : TcpRosReqArg where
  callerid := .ofChars ['n'] rfl
  topic := .ofChars ['t'] rfl
  type := .ofChars ['S', 't', 'r', 'i', 'n', 'g'] rfl
  md5sum := .ofChars ['*'] rfl

theorem encode_tcpros_topic_req_decode_small :
    ∃ sent received, encodeTcprosTopicReq smallRequest ⟨.replicate 100 0, 0⟩ = some (.ok, sent) ∧
      received.data = slice sent.data 4 (sent.dataSize - 4) ++ [0] ∧ leAt sent.data 0 4 = received.dataSize ∧
      smallRequest.DecodesStrings received := by
  obtain ⟨sent, received, hsent, -, hdata, hsize, -, -, hstrings⟩ :=
    encode_tcpros_topic_req_decode_iff smallRequest ⟨.replicate 100 0, 0⟩ [0]
      (by decide) (by decide) (by decide)
  exact ⟨sent, received, hsent, hdata, hsize, hstrings.2 ⟨by decide, by decide⟩⟩

/-- The decoder looks for `tcp_nodely=` and the request has `tcp_nodelay=1`. -/
theorem encode_tcpros_topic_req_nodelay_lost :
    ∃ sent, encodeTcprosTopicReq smallRequest ⟨.replicate 100 0, 0⟩ = some (.ok, sent) ∧
      slice sent.data 4 (sent.dataSize - 4) = smallRequest.body ∧
      ∃ fields data, (smallRequest.received [0]).DecodesTo fields data ∧ fields .tcpNodely = none := by
  have hlt : (smallRequest.body ++ [0]).length < 2 ^ 32 := by decide
  obtain ⟨fields, data, hdec, -⟩ := (decodesStrings_received_iff hlt).2 ⟨by decide, by decide⟩
  obtain ⟨sent, hsent, -, -, -, hbody⟩ :=
    @encodeTcprosTopicReq_sent smallRequest ⟨.replicate 100 0, 0⟩ (by decide) (by decide)
  refine ⟨sent, hsent, hbody, fields, data, hdec, ?_⟩
  obtain ⟨rfl, -⟩ := (decodesTo_received hlt).1 hdec
  obtain ⟨-, hnone⟩ | ⟨_, _, hs, -⟩ := decoded_cases hlt .tcpNodely
  · exact hnone
  · cases hs

end Athrill
