import Athrill.Debugger.ObjectContainer
import Athrill.Lib.Tally
import Athrill.Symbol.Lookup

/-!
# Data accesses (`executor/cpu_control/dbg_cpu_control.c`)

For every variable the debugger counts the accesses to it, all of them and for each context apart: the kind
of access, the core, the stack and the function. Main result: `cpuctrl_set_access_counts`.
-/

namespace Athrill

open Machine Tally List ObjectContainerType

variable {W : Nat}

/-! ## The source -/

structure DataAccessContextType where
  accessType : BitVec 8
  coreId : BitVec 32
  sp : Nat
  funcid : Nat
  accessNum : Nat
  accessTime : Nat
  deriving DecidableEq, Repr

structure DataAccessKey where
  accessType : BitVec 8
  coreId : BitVec 32
  sp : Nat
  funcid : Nat
  deriving DecidableEq, Repr

def DataAccessContextType.key (dp : DataAccessContextType) : DataAccessKey :=
  ⟨dp.accessType, dp.coreId, dp.sp, dp.funcid⟩

structure DataAccessInfoHeadType where
  accessNum : Nat
  accessContext : Option (ObjectContainerType DataAccessContextType)

structure AccessOrigin where
  funcid : Int
  sp : BitVec 32
  coreId : BitVec 32
  totalClocks : Nat

def DataAccessInfoHeadType.container (heap : HostHeap DataAccessContextType) (acp : DataAccessInfoHeadType) :
    Except CFault (ObjectContainerType DataAccessContextType) :=
  match acp.accessContext with
  -- `sizeof(DataAccessContextType)`
  | none => create heap 32 2
  | some c => .ok c

def searchContext (c : ObjectContainerType DataAccessContextType) (context : DataAccessKey) :
    List Nat → Except CFault (Option Nat)
  | [] => .ok none
  | index :: rest =>
    match c.getElement index with
    | none => .ok none
    | some p =>
      match c.load p with
      | .error e => .error e
      | .ok dp => if dp.key = context then .ok (some p) else searchContext c context rest

def countAccess (c : ObjectContainerType DataAccessContextType) (totalClocks : Nat) (p : Nat) :
    Except CFault (ObjectContainerType DataAccessContextType) := do
  let dp ← c.load p
  c.store p { dp with accessNum := dp.accessNum + 1, accessTime := totalClocks }

def createContext (heap : HostHeap DataAccessContextType) (c : ObjectContainerType DataAccessContextType)
    (context : DataAccessKey) : Except CFault (ObjectContainerType DataAccessContextType × Nat) := do
  match ← c.createElement heap with
  | (_, none) => .error .outside
  | (c, some p) =>
    let dp ← c.load p
    let c ← c.store p ⟨context.accessType, context.coreId, context.sp, context.funcid, 0, dp.accessTime⟩
    return (c, p)

def addContext (heap : HostHeap DataAccessContextType) (c : ObjectContainerType DataAccessContextType)
    (context : DataAccessKey) (totalClocks : Nat) :
    Except CFault (ObjectContainerType DataAccessContextType) := do
  match ← searchContext c context (range c.numUsingObjects) with
  | some p => countAccess c totalClocks p
  | none =>
    let (c, p) ← createContext heap c context
    countAccess c totalClocks p

def cpuctrlAccessContextAdd (heap : HostHeap DataAccessContextType) (qsort : SortedSearch.Sorter)
    (gl : SymbolTable W) (origin : AccessOrigin) (accessType : BitVec 8) (acp : DataAccessInfoHeadType) :
    Except CFault (SymbolTable W × DataAccessInfoHeadType) :=
  match gl.lookup qsort (origin.sp.setWidth W) with
  | none => .error .outside
  | some (gl, r) =>
    if r.ret < 0 then return (gl, acp)
    else do
      let c ← acp.container heap
      let c ← addContext heap c ⟨accessType, origin.coreId, uint32OfInt r.ret, uint32OfInt origin.funcid⟩
        origin.totalClocks
      return (gl, ⟨acp.accessNum + 1, some c⟩)

abbrev DataAccessInfoTable := List (Option DataAccessInfoHeadType)

def DataAccessInfoTable.init (known : AthrillAddrType W → Bool) (symbols : List (DbgSymbolType W)) :
    DataAccessInfoTable :=
  symbols.map fun sym => if known sym.addr then some ⟨0, none⟩ else none

structure AccessLoop (W : Nat) where
  gl : SymbolTable W
  table : DataAccessInfoTable
  prevGlid : Int

def accessByte (heap : HostHeap DataAccessContextType) (qsort : SortedSearch.Sorter) (origin : AccessOrigin)
    (accessType : BitVec 32) (s : AccessLoop W) (addr : AthrillAddrType W) : Except CFault (AccessLoop W) :=
  match s.gl.lookup qsort addr with
  | none => .error .outside
  | some (gl, r) =>
    if r.ret < 0 then .ok { s with gl := gl }
    else if r.ret = s.prevGlid then .ok { s with gl := gl }
    else
      match s.table[r.ret.toNat]? with
      | none => .error .outside
      | some none => .ok { s with gl := gl }
      | some (some acp) => do
        let (gl, acp) ← cpuctrlAccessContextAdd heap qsort gl origin (accessType.setWidth 8) acp
        return ⟨gl, s.table.set r.ret.toNat (some acp), r.ret⟩

def accessBytes (accessAddr : AthrillAddrType W) (size : BitVec 32) : List (AthrillAddrType W) :=
  (range size.toNat).map fun i => accessAddr + BitVec.ofNat W i

def cpuctrlSetAccess (heap : HostHeap DataAccessContextType) (qsort : SortedSearch.Sorter) (gl : SymbolTable W)
    (table : DataAccessInfoTable) (origin : AccessOrigin) (accessType : BitVec 32)
    (accessAddr : AthrillAddrType W) (size : BitVec 32) : Except CFault (AccessLoop W) :=
  (accessBytes accessAddr size).foldlM (accessByte heap qsort origin accessType) ⟨gl, table, -1⟩

/-! ## Runs -/

inductive AccessEvent (W : Nat)
  | setAccess (heap : HostHeap DataAccessContextType) (origin : AccessOrigin) (accessType : BitVec 32)
      (accessAddr : AthrillAddrType W) (size : BitVec 32)
  | addr2glid (addr : AthrillAddrType W)

structure AccessRun (W : Nat) where
  gl : SymbolTable W
  table : DataAccessInfoTable

def AccessRun.init (known : AthrillAddrType W → Bool) (gl : SymbolTable W) : AccessRun W :=
  ⟨gl, .init known gl.symbols⟩

def accessCall (qsort : SortedSearch.Sorter) (s : AccessRun W) : AccessEvent W → Except CFault (AccessRun W)
  | .setAccess heap origin accessType accessAddr size => do
    let l ← cpuctrlSetAccess heap qsort s.gl s.table origin accessType accessAddr size
    return ⟨l.gl, l.table⟩
  | .addr2glid addr =>
    match s.gl.lookup qsort addr with
    | none => .error .outside
    | some (gl, _) => .ok { s with gl := gl }

def accessStep (qsort : SortedSearch.Sorter) (s : AccessRun W) (e : AccessEvent W) :
    Option (AccessRun W × Unit) :=
  match accessCall qsort s e with
  | .error _ => none
  | .ok s => some (s, ())

/-! ## The counts of a variable -/

def DataAccessInfoHeadType.elements (acp : DataAccessInfoHeadType) : List DataAccessContextType :=
  match acp.accessContext with
  | none => []
  | some c => c.elements

def VariableOk (acp : DataAccessInfoHeadType) : Prop :=
  IsTally DataAccessContextType.key DataAccessContextType.accessNum acp.elements acp.accessNum

def AccessEvent.Touches : AccessEvent W → DbgSymbolType W → Prop
  | .setAccess _ _ _ accessAddr size, sym => ∃ addr ∈ accessBytes accessAddr size, sym.Contains addr
  | .addr2glid _, _ => False

def accessedBytes (es : List (AccessEvent W)) : Nat :=
  (es.map fun
    | .setAccess _ _ _ _ size => size.toNat
    | .addr2glid _ => 0).sum

def AccessEvent.Refused : AccessEvent W → Prop
  | .setAccess heap _ _ _ _ => heap.Refuses
  | .addr2glid _ => False

def contextLimit : Nat := 2 ^ 27 - 2

structure ContextsOk (c : ObjectContainerType DataAccessContextType) : Prop where
  ok : c.Ok
  appendSize : c.appendSize = 2
  elementSize : c.getElementSize = 32

structure CountsOk (c : ObjectContainerType DataAccessContextType) (total : Nat) : Prop where
  contexts : ContextsOk c
  tally : IsTally DataAccessContextType.key DataAccessContextType.accessNum c.elements total

structure InfoOk (acp : DataAccessInfoHeadType) : Prop where
  container : ∀ c, acp.accessContext = some c → ContextsOk c
  tally : VariableOk acp

structure TableOk (symbols : List (DbgSymbolType W)) (n : Nat) (gl : SymbolTable W)
    (table : DataAccessInfoTable) : Prop where
  ready : gl.Ready
  loaded : gl.symbols = symbols
  length : table.length = symbols.length
  infos : ∀ (g : Nat) acp, table[g]? = some (some acp) → InfoOk acp
  few : ∀ (g : Nat) acp, table[g]? = some (some acp) → acp.elements.length ≤ n

/-! ## One container -/

section
variable {c c' : ObjectContainerType DataAccessContextType} {heap : HostHeap DataAccessContextType}
  {context : DataAccessKey} {n i : Nat} {reason : Prop}

theorem ContextsOk.sameSizes (h : ContextsOk c) (hok : c'.Ok) (hsame : c.SameSizes c') : ContextsOk c' :=
  ⟨hok, hsame.1.trans h.appendSize, hsame.2.trans h.elementSize⟩

theorem ContextsOk.length_of_full (h : ContextsOk c) (hfull : c.Full) : c.elements.length = contextLimit := by
  rw [ObjectContainerType.Full, h.appendSize, h.elementSize] at hfull
  rw [length_elements, contextLimit]
  omega

theorem searchContext_eq (h : c.Ok) {is : List Nat} (his : ∀ i ∈ is, i < c.numUsingObjects) :
    searchContext c context is = .ok ((is.find? fun i =>
      (c.data (i * c.getElementSize)).key = context).map (· * c.getElementSize)) := by
  induction is with
  | nil => rfl
  | cons i is ih =>
    obtain ⟨hget, hload⟩ := h.getElement (his i (.head _))
    have hrest := ih fun j hj => his j (.tail _ hj)
    by_cases hkey : (c.data (i * c.getElementSize)).key = context
    · simp [searchContext, hget, hload, hkey]
    · simp [searchContext, hget, hload, hkey, hrest]

theorem searchContext_cases (h : c.Ok) (context : DataAccessKey) :
    (∃ i dp, searchContext c context (range c.numUsingObjects) = .ok (some (i * c.getElementSize)) ∧
        c.elements[i]? = some dp ∧ dp.key = context) ∨
      searchContext c context (range c.numUsingObjects) = .ok none ∧
        context ∉ c.elements.map DataAccessContextType.key := by
  rw [searchContext_eq h fun i hi => mem_range.1 hi]
  cases hfind : (range c.numUsingObjects).find? fun i =>
      (c.data (i * c.getElementSize)).key = context with
  | some i =>
    obtain ⟨hkey, hi, -⟩ := find?_range_eq_some.1 hfind
    refine .inl ⟨i, _, rfl, ?_, by simpa using hkey⟩
    rw [getElem?_elements, if_pos (mem_range.1 hi)]
  | none =>
    refine .inr ⟨rfl, fun hmem => ?_⟩
    rw [elements, map_map] at hmem
    obtain ⟨i, hi, hkey⟩ := mem_map.1 hmem
    have hno := find?_range_eq_none.1 hfind i (mem_range.1 hi)
    exact absurd hkey (by simpa using hno)

theorem ContextsOk.ends_countAccess (h : ContextsOk c) (totalClocks : Nat) {dp : DataAccessContextType}
    (hi : c.elements[i]? = some dp) :
    Ends reason (countAccess c totalClocks (i * c.getElementSize)) fun c' => ContextsOk c' ∧ c'.elements =
      c.elements.set i { dp with accessNum := dp.accessNum + 1, accessTime := totalClocks } := by
  obtain ⟨c', hstore, hok, hset, hsame⟩ := h.ok.store (List.getElem?_eq_some_iff.1 hi).1
    { dp with accessNum := dp.accessNum + 1, accessTime := totalClocks }
  refine .of_eq_ok ?_ ⟨h.sameSizes hok hsame, hset⟩
  rw [countAccess, h.ok.load hi]
  exact hstore

theorem ContextsOk.ends_createContext (h : ContextsOk c) (context : DataAccessKey) :
    Ends (heap.Refuses ∨ c.Full) (createContext heap c context) fun r => ContextsOk r.1 ∧
      r.2 = c.elements.length * r.1.getElementSize ∧
        ∃ dp, r.1.elements = c.elements ++ [dp] ∧ dp.key = context ∧ dp.accessNum = 0 := by
  refine h.ok.createElement.bind ?_
  rintro ⟨c', p⟩ ⟨hp, hok, ⟨dp, helements⟩, hsame⟩
  dsimp only at hp hok helements hsame
  have hc' := h.sameSizes hok hsame
  subst hp
  have hlast : c'.elements[c.elements.length]? = some dp := by rw [helements, getElem?_concat_length]
  let new : DataAccessContextType :=
    ⟨context.accessType, context.coreId, context.sp, context.funcid, 0, dp.accessTime⟩
  obtain ⟨c'', hstore, hok', hset, hsame'⟩ := hok.store (List.getElem?_eq_some_iff.1 hlast).1 new
  have hend : c''.elements = c.elements ++ [new] := by
    rw [hset, helements]
    simp
  have hc'' := hc'.sameSizes hok' hsame'
  refine .of_eq_ok (a := (c'', c.elements.length * c.getElementSize)) ?_
    ⟨hc'', by rw [hc''.elementSize, h.elementSize], new, hend, rfl, rfl⟩
  have hload := hok.load hlast
  rw [hsame.2] at hload hstore
  simp only [hload]
  exact congrArg (· >>= fun c₁ => pure (c₁, c.elements.length * c.getElementSize)) hstore

theorem CountsOk.ends_addContext (h : CountsOk c n) (context : DataAccessKey) (totalClocks : Nat) :
    Ends (heap.Refuses ∨ c.Full) (addContext heap c context totalClocks) fun c' =>
      CountsOk c' (n + 1) ∧ c'.elements.length ≤ c.elements.length + 1 := by
  obtain ⟨hok, htally⟩ := h
  unfold addContext
  rcases searchContext_cases hok.ok context with ⟨i, dp, hsearch, hi, hkey⟩ | ⟨hsearch, hnew⟩
  · rw [hsearch]
    refine (hok.ends_countAccess totalClocks hi).imp id fun c' ⟨hok', hset⟩ => ?_
    rw [hset, length_set]
    refine ⟨⟨hok', ?_⟩, Nat.le_succ _⟩
    rw [hset]
    exact htally.set hi rfl rfl
  · rw [hsearch]
    refine (hok.ends_createContext context).bind ?_
    rintro ⟨c', p⟩ ⟨hok', hp, dp, helements, hkey, hnum⟩
    dsimp only at hp hok' helements
    subst hp
    have hlast : c'.elements[c.elements.length]? = some dp := by rw [helements, getElem?_concat_length]
    refine (hok'.ends_countAccess totalClocks hlast).imp id fun c'' ⟨hok'', hset⟩ => ?_
    have hone : c''.elements =
        c.elements ++ [{ dp with accessNum := dp.accessNum + 1, accessTime := totalClocks }] := by
      rw [hset, helements]
      simp
    refine ⟨⟨hok'', ?_⟩, by rw [hone, length_append, length_singleton]⟩
    rw [hone]
    refine htally.concat ?_ (by rw [hnum])
    rw [← hkey] at hnew
    exact hnew

end

/-! ## One variable -/

section
variable {heap : HostHeap DataAccessContextType} {qsort : SortedSearch.Sorter} {origin : AccessOrigin}
  {symbols : List (DbgSymbolType W)} {gl : SymbolTable W} {table : DataAccessInfoTable} {n : Nat}

variable {acp : DataAccessInfoHeadType}

theorem InfoOk.ends_container (h : InfoOk acp) :
    Ends heap.Refuses (acp.container heap) fun c => CountsOk c acp.accessNum ∧ c.elements = acp.elements := by
  have htally := h.tally
  unfold VariableOk DataAccessInfoHeadType.elements at htally
  unfold DataAccessInfoHeadType.container DataAccessInfoHeadType.elements
  cases hc : acp.accessContext with
  | none =>
    rw [hc] at htally
    refine (ends_create (by decide) (by decide)).imp id
      fun c ⟨hok, hnil, happend, hobject⟩ => ⟨⟨⟨hok, happend, ?_⟩, hnil.symm ▸ htally⟩, hnil⟩
    rw [getElementSize, hobject]
    rfl
  | some c =>
    rw [hc] at htally
    exact .ok ⟨⟨h.container c hc, htally⟩, rfl⟩

theorem InfoOk.ends_accessContextAdd (h : InfoOk acp) (hready : gl.Ready) (accessType : BitVec 8) :
    Ends (heap.Refuses ∨ acp.elements.length = contextLimit)
      (cpuctrlAccessContextAdd heap qsort gl origin accessType acp) fun r => r.1.Ready ∧
        r.1.symbols = gl.symbols ∧ InfoOk r.2 ∧ r.2.elements.length ≤ acp.elements.length + 1 := by
  obtain ⟨gl', r, hlookup, hready', hsame, -⟩ := hready.lookup qsort (origin.sp.setWidth W)
  simp only [cpuctrlAccessContextAdd, hlookup]
  split_ifs
  · exact .ok ⟨hready', hsame, h, Nat.le_succ _⟩
  · refine (h.ends_container.imp .inl fun _ hc => hc).bind fun c ⟨hc, helements⟩ => ?_
    have hfull : c.Full → acp.elements.length = contextLimit := fun hfull =>
      helements ▸ hc.contexts.length_of_full hfull
    refine ((hc.ends_addContext _ _).imp (Or.imp_right hfull) fun _ hc' => hc').bind
      fun c' ⟨hc', hlen⟩ => .ok ⟨hready', hsame, ⟨fun c₁ heq => ?_, hc'.tally⟩, helements ▸ hlen⟩
    cases heq
    exact hc'.contexts

/-! ## One byte, and one access -/

theorem TableOk.init (h : gl.Ready) (known : AthrillAddrType W → Bool) :
    TableOk gl.symbols 0 gl (.init known gl.symbols) := by
  have hinit : ∀ (g : Nat) acp, (DataAccessInfoTable.init known gl.symbols)[g]? = some (some acp) →
      acp = ⟨0, none⟩ := by
    intro g acp hacp
    rw [DataAccessInfoTable.init, getElem?_map] at hacp
    obtain ⟨sym, -, hsym⟩ := Option.map_eq_some_iff.1 hacp
    split_ifs at hsym
    exact (Option.some.inj hsym).symm
  refine ⟨h, rfl, length_map _, fun g acp hacp => ?_, fun g acp hacp => ?_⟩
  · rw [hinit g acp hacp]
    exact ⟨fun c hc => (by cases hc), isTally_nil⟩
  · rw [hinit g acp hacp]
    exact le_refl 0

theorem TableOk.lookup (h : TableOk symbols n gl table) (qsort : SortedSearch.Sorter)
    (addr : AthrillAddrType W) :
    ∃ gl' r, gl.lookup qsort addr = some (gl', r) ∧ TableOk symbols n gl' table ∧ r.Finds symbols addr := by
  obtain ⟨gl', r, hlookup, hready, hsame, hfinds⟩ := h.ready.lookup qsort addr
  rw [h.loaded] at hsame hfinds
  exact ⟨gl', r, hlookup, ⟨hready, hsame, h.length, h.infos, h.few⟩, hfinds⟩

theorem TableOk.mono {n' : Nat} (h : TableOk symbols n gl table) (hle : n ≤ n') :
    TableOk symbols n' gl table :=
  ⟨h.ready, h.loaded, h.length, h.infos, fun g acp hg => (h.few g acp hg).trans hle⟩

theorem TableOk.set (h : TableOk symbols n gl table) {gl' : SymbolTable W} (hready : gl'.Ready)
    (hsame : gl'.symbols = gl.symbols) (hacp : InfoOk acp)
    (hlen : acp.elements.length ≤ n) (g : Nat) : TableOk symbols n gl' (table.set g (some acp)) := by
  have hcases : ∀ (g' : Nat) acp', (table.set g (some acp))[g']? = some (some acp') →
      acp' = acp ∨ table[g']? = some (some acp') := by
    intro g' acp' hg'
    rw [getElem?_set] at hg'
    split_ifs at hg'
    · exact .inl (Option.some.inj (Option.some.inj hg')).symm
    · exact .inr hg'
  refine ⟨hready, hsame.trans h.loaded, by rw [length_set, h.length], fun g' acp' hg' => ?_,
    fun g' acp' hg' => ?_⟩
  · rcases hcases g' acp' hg' with rfl | hold
    · exact hacp
    · exact h.infos g' acp' hold
  · rcases hcases g' acp' hg' with rfl | hold
    · exact hlen
    · exact h.few g' acp' hold

theorem TableOk.ends_accessByte {s : AccessLoop W} (h : TableOk symbols n s.gl s.table)
    (accessType : BitVec 32) (addr : AthrillAddrType W) :
    Ends (heap.Refuses ∨ contextLimit ≤ n) (accessByte heap qsort origin accessType s addr) fun s' =>
      TableOk symbols (n + 1) s'.gl s'.table ∧
        ∀ (g : Nat) sym, symbols[g]? = some sym → ¬ sym.Contains addr → s'.table[g]? = s.table[g]? := by
  obtain ⟨gl, r, hlookup, hok, hfinds⟩ := h.lookup qsort addr
  have hmore := hok.mono (Nat.le_succ n)
  simp only [accessByte, hlookup]
  rcases hfinds with ⟨i, sym, rfl, hi, hcontains⟩ | ⟨rfl, -⟩
  · have hlt : i < s.table.length := by
      rw [h.length]
      exact (List.getElem?_eq_some_iff.1 hi).1
    simp only [Int.ofNat_eq_natCast, Int.toNat_natCast, if_neg (not_lt.2 (Int.natCast_nonneg i))]
    split_ifs
    · exact .ok ⟨hmore, fun _ _ _ _ => rfl⟩
    obtain ⟨entry, hentry⟩ : ∃ entry, s.table[i]? = some entry := ⟨_, getElem?_eq_getElem hlt⟩
    rw [hentry]
    cases entry with
    | none => exact .ok ⟨hmore, fun _ _ _ _ => rfl⟩
    | some acp =>
      have hfew := h.few i acp hentry
      refine (((h.infos i acp hentry).ends_accessContextAdd hok.ready _).imp
        (Or.imp_right fun hlimit => hlimit ▸ hfew) fun _ hr => hr).bind ?_
      rintro ⟨gl', acp'⟩ ⟨hready, hsame, hacp, hlen⟩
      refine .ok ⟨hmore.set hready hsame hacp (hlen.trans (Nat.succ_le_succ hfew)) i, fun g sym' hg hout =>
        getElem?_set_ne ?_⟩
      -- the variable that was found contains the byte
      rintro rfl
      rw [hi] at hg
      exact hout (Option.some.inj hg ▸ hcontains)
  · exact .ok ⟨hmore, fun _ _ _ _ => rfl⟩

theorem TableOk.ends_accessBytes (accessType : BitVec 32) (addrs : List (AthrillAddrType W))
    {s : AccessLoop W} (h : TableOk symbols n s.gl s.table) :
    Ends (heap.Refuses ∨ contextLimit ≤ n + addrs.length)
      (addrs.foldlM (accessByte heap qsort origin accessType) s) fun s' =>
        TableOk symbols (n + addrs.length) s'.gl s'.table ∧ ∀ (g : Nat) sym, symbols[g]? = some sym →
          (∀ addr ∈ addrs, ¬ sym.Contains addr) → s'.table[g]? = s.table[g]? := by
  induction addrs generalizing s n with
  | nil => exact .ok ⟨h, fun _ _ _ _ => rfl⟩
  | cons addr addrs ih =>
    have hcount : n + (addr :: addrs).length = n + 1 + addrs.length := by
      rw [length_cons]
      omega
    rw [foldlM_cons, hcount]
    refine ((h.ends_accessByte accessType addr).imp (Or.imp_right fun hlimit => by omega)
      fun _ hs => hs).bind fun s₁ ⟨hok, hframe⟩ => ?_
    refine (ih hok).imp id fun s' ⟨hok', hframe'⟩ => ⟨hok', fun g sym hg hout => ?_⟩
    rw [hframe' g sym hg fun a ha => hout a (.tail _ ha), hframe g sym hg (hout addr (.head _))]

theorem TableOk.ends_accessCall {s : AccessRun W} (h : TableOk symbols n s.gl s.table)
    (qsort : SortedSearch.Sorter) (e : AccessEvent W) :
    Ends (e.Refused ∨ contextLimit ≤ n + accessedBytes [e]) (accessCall qsort s e) fun s' =>
      TableOk symbols (n + accessedBytes [e]) s'.gl s'.table ∧
        ∀ (g : Nat) sym, symbols[g]? = some sym → ¬ e.Touches sym → s'.table[g]? = s.table[g]? := by
  cases e with
  | setAccess heap origin accessType accessAddr size =>
    have hbytes : (accessBytes accessAddr size).length = accessedBytes
        [AccessEvent.setAccess heap origin accessType accessAddr size] := by
      simp [accessBytes, accessedBytes]
    rw [← hbytes]
    refine (TableOk.ends_accessBytes accessType _ (s := ⟨s.gl, s.table, -1⟩) h).bind
      fun l ⟨hok, hframe⟩ => .ok ⟨hok, fun g sym hg hout => hframe g sym hg fun addr haddr hin => ?_⟩
    exact hout ⟨addr, haddr, hin⟩
  | addr2glid addr =>
    obtain ⟨gl', r, hlookup, hok, -⟩ := h.lookup qsort addr
    simp only [accessCall, hlookup]
    exact .ok ⟨hok, fun _ _ _ _ => rfl⟩

/-! ## All accesses -/

theorem accessedBytes_cons (e : AccessEvent W) (es : List (AccessEvent W)) :
    accessedBytes (e :: es) = accessedBytes [e] + accessedBytes es := by
  simp [accessedBytes]

theorem TableOk.of_run {s s' : AccessRun W} (h : TableOk symbols n s.gl s.table) (es : List (AccessEvent W))
    {os : List Unit} (hrun : run (accessStep qsort) s es = some (s', os)) :
    TableOk symbols (n + accessedBytes es) s'.gl s'.table := by
  induction es generalizing s n os with
  | nil => exact eq_of_run_nil hrun ▸ h
  | cons e es ih =>
    obtain ⟨s₁, o, os', hstep, hrest, -⟩ := run_cons_eq_some.1 hrun
    rw [accessedBytes_cons, ← Nat.add_assoc]
    rcases h.ends_accessCall qsort e with ⟨hfault, -⟩ | ⟨s₂, hcall, hok, -⟩
    · simp [accessStep, hfault] at hstep
    · simp only [accessStep, hcall, Option.some.injEq, Prod.mk.injEq] at hstep
      exact ih (hstep.1 ▸ hok) hrest

theorem TableOk.exists_run {s : AccessRun W} (h : TableOk symbols n s.gl s.table)
    (qsort : SortedSearch.Sorter) {es : List (AccessEvent W)} (hgranted : ∀ e ∈ es, ¬ e.Refused)
    (hfew : n + accessedBytes es < contextLimit) :
    ∃ s' os, run (accessStep qsort) s es = some (s', os) := by
  induction es generalizing s n with
  | nil => exact ⟨s, [], rfl⟩
  | cons e es ih =>
    rw [accessedBytes_cons] at hfew
    rcases h.ends_accessCall qsort e with ⟨-, hwhy⟩ | ⟨s₁, hcall, hok, -⟩
    · rcases hwhy with hrefused | hlimit
      · exact absurd hrefused (hgranted e (.head _))
      · omega
    · obtain ⟨s', os, hrest⟩ := ih hok (fun e he => hgranted e (.tail _ he)) (by omega)
      exact ⟨s', () :: os, run_cons_eq_some.2 ⟨s₁, (), os, by simp [accessStep, hcall], hrest, rfl⟩⟩

/-- **The contexts of every variable are a tally of its accesses.** After every sequence of accesses, with other
lookups of global symbols between them, no two elements of a variable's container have one key, and their
counts add up to the variable's. From there every call leaves each variable as it is that has no byte in the
access, and it returns unless the host refuses memory or as many bytes were accessed as a full container has
contexts. -/
theorem cpuctrl_set_access_counts (hgl : gl.Ready) (known : AthrillAddrType W → Bool)
    (es : List (AccessEvent W)) {s : AccessRun W} {os : List Unit}
    (hrun : run (accessStep qsort) (.init known gl) es = some (s, os)) :
    (∀ (g : Nat) acp, s.table[g]? = some (some acp) →
      (acp.elements.map DataAccessContextType.key).Nodup ∧
        (acp.elements.map DataAccessContextType.accessNum).sum = acp.accessNum) ∧
      ∀ e, Ends (e.Refused ∨ contextLimit ≤ accessedBytes es + accessedBytes [e]) (accessCall qsort s e) fun s' =>
        ∀ (g : Nat) sym, gl.symbols[g]? = some sym → ¬ e.Touches sym → s'.table[g]? = s.table[g]? := by
  have hinit : TableOk gl.symbols 0 (AccessRun.init known gl).gl (AccessRun.init known gl).table :=
    .init hgl known
  have hok := hinit.of_run es hrun
  rw [Nat.zero_add] at hok
  refine ⟨fun g acp hg => ?_, fun e => (hok.ends_accessCall qsort e).imp id fun s' h => h.2⟩
  exact ⟨(hok.infos g acp hg).tally.distinct, (hok.infos g acp hg).tally.sum⟩

end

def grantingHeap : HostHeap DataAccessContextType := ⟨fun size => decide (0 < size), fun _ => ⟨0, 0, 0, 0, 0, 0⟩, rfl⟩

def twoAccesses : List (AccessEvent 32) :=
  [.setAccess grantingHeap ⟨0, 0x1010, 0, 5⟩ 2 0x100 4, .setAccess grantingHeap ⟨0, 0x1010, 0, 6⟩ 1 0x103 4]

theorem cpuctrl_set_access_counts_two : ∃ s os,
    run (accessStep SortedSearch.mergeSorter)
      (.init (fun _ => true) (.load [⟨[], 0x100, 4⟩, ⟨[], 0x1000, 0x100⟩])) twoAccesses = some (s, os) ∧
      ∀ (g : Nat) acp, s.table[g]? = some (some acp) →
        (acp.elements.map DataAccessContextType.key).Nodup ∧
          (acp.elements.map DataAccessContextType.accessNum).sum = acp.accessNum := by
  have hready := (SymbolTable.ready_load ([⟨[], 0x100, 4⟩, ⟨[], 0x1000, 0x100⟩] : List (DbgSymbolType 32))
    (by decide)).1
  have hgranted : ∀ e ∈ twoAccesses, ¬ e.Refused := by
    have hnot : ¬ grantingHeap.Refuses := fun ⟨size, hpos, hno⟩ => by simp [grantingHeap] at hno; omega
    simpa [twoAccesses, AccessEvent.Refused] using hnot
  obtain ⟨s, os, hrun⟩ := TableOk.exists_run (s := .init (fun _ => true) _) (.init hready fun _ => true)
    SortedSearch.mergeSorter hgranted (by decide)
  exact ⟨s, os, hrun, (cpuctrl_set_access_counts hready (fun _ => true) twoAccesses hrun).1⟩

end Athrill
