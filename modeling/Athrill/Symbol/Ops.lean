import Athrill.Lib.Run
import Athrill.Lib.SortedSearch
import Athrill.StdTypes

/-!
# The symbol tables (`lib/symbol_ops.c`)

Functions and global variables are kept in two append-only tables.
-/

namespace Athrill

open SortedSearch

variable {W : Nat}

/-- A symbol, without `enter_sp`, which no lookup reads. -/
structure DbgSymbolType (W : Nat) where
  name : List UInt8
  addr : AthrillAddrType W
  size : BitVec 32
  deriving DecidableEq, Repr

def DbgSymbolType.endAddr (s : DbgSymbolType W) : AthrillAddrType W := s.addr + s.size.setWidth W

structure SymbolRangeIndex (W : Nat) where
  builtCount : Nat
  order : List Nat
  maxEnd : List (AthrillAddrType W)

def symbolCompareStart (table : List (DbgSymbolType W)) (a b : Nat) : Int :=
  match table[a]?, table[b]? with
  | some x, some y =>
    if x.addr ≠ y.addr then
      if x.addr < y.addr then -1 else 1
    else if a < b then -1 else if a > b then 1 else 0
  | _, _ => 0

def symbolIndexBuild (qsort : Sorter) (table : List (DbgSymbolType W)) (count : Nat) :
    Option (SymbolRangeIndex W) :=
  let order := qsort.sort (symbolCompareStart table) (List.range count)
  match order.mapM fun id => table[id]?.map DbgSymbolType.endAddr with
  | none => none
  | some ends => some { builtCount := count, order := order, maxEnd := runningMax 0 ends }

def symbolStartsBelow (order : List Nat) (table : List (DbgSymbolType W))
    (addr : AthrillAddrType W) (k : Nat) : Option Bool :=
  match order[k]? with
  | none => none
  | some id => table[id]?.map fun s => decide (s.addr ≤ addr)

def symbolIndexScan (index : SymbolRangeIndex W) (table : List (DbgSymbolType W))
    (addr : AthrillAddrType W) : Nat → Int → Option Int
  | 0, found => some found
  | k + 1, found =>
    match index.maxEnd[k]? with
    | none => none
    | some maxEnd =>
      if maxEnd ≤ addr then some found
      else
        match index.order[k]? with
        | none => none
        | some id =>
          match table[id]? with
          | none => none
          | some symbol =>
            if addr < symbol.endAddr ∧ (found < 0 ∨ id < uint32OfInt found) then
              symbolIndexScan index table addr k (intOfUint32 id)
            else symbolIndexScan index table addr k found

def symbolIndexFind (qsort : Sorter) (index : SymbolRangeIndex W) (table : List (DbgSymbolType W))
    (count : Nat) (addr : AthrillAddrType W) : Option (SymbolRangeIndex W × Int) :=
  match if index.builtCount ≠ count then symbolIndexBuild qsort table count else some index with
  | none => none
  | some index =>
    match partitionPoint (symbolStartsBelow index.order table addr) 0 count with
    | none => none
    | some low => (symbolIndexScan index table addr low (-1)).map fun found => (index, found)

/-- The symbols, the index over them, and the id returned last. -/
structure SymbolTable (W : Nat) where
  symbols : List (DbgSymbolType W)
  index : SymbolRangeIndex W
  last : Int

def SymbolTable.empty : SymbolTable W := { symbols := [], index := ⟨0, [], []⟩, last := -1 }

/-- The returned id, and the start address if one is written. -/
structure SymbolResult (W : Nat) where
  ret : Int
  out : Option (AthrillAddrType W)
  deriving DecidableEq, Repr

def SymbolTable.lastHit (t : SymbolTable W) (addr : AthrillAddrType W) :
    Option (Option (AthrillAddrType W)) :=
  if 0 ≤ t.last then
    t.symbols[t.last.toNat]?.map fun s =>
      if addr ≥ s.addr ∧ addr < s.endAddr then some s.addr else none
  else some none

def SymbolTable.lookup (qsort : Sorter) (t : SymbolTable W) (addr : AthrillAddrType W) :
    Option (SymbolTable W × SymbolResult W) :=
  match t.lastHit addr with
  | none => none
  | some (some start) => some (t, ⟨t.last, some start⟩)
  | some none =>
    match symbolIndexFind qsort t.index t.symbols t.symbols.length addr with
    | none => none
    | some (index, found) =>
      if 0 ≤ found then
        t.symbols[found.toNat]?.map fun s =>
          ({ t with index := index, last := found }, ⟨found, some s.addr⟩)
      else some ({ t with index := index }, ⟨found, none⟩)

def SymbolTable.add (t : SymbolTable W) (sym : DbgSymbolType W) : SymbolTable W :=
  { t with symbols := t.symbols ++ [sym] }

structure SymbolState (W : Nat) where
  func : SymbolTable W
  gl : SymbolTable W

def SymbolState.init : SymbolState W := ⟨.empty, .empty⟩

def symbolFuncAdd (st : SymbolState W) (sym : DbgSymbolType W) : SymbolState W × SymbolResult W :=
  ({ st with func := st.func.add sym }, ⟨0, none⟩)

def symbolGlAdd (st : SymbolState W) (sym : DbgSymbolType W) : SymbolState W × SymbolResult W :=
  ({ st with gl := st.gl.add sym }, ⟨0, none⟩)

def symbolPc2funcid (qsort : Sorter) (st : SymbolState W) (pc : AthrillAddrType W) :
    Option (SymbolState W × SymbolResult W) :=
  (st.func.lookup qsort pc).map fun r => ({ st with func := r.1 }, r.2)

def symbolAddr2glid (qsort : Sorter) (st : SymbolState W) (addr : AthrillAddrType W) :
    Option (SymbolState W × SymbolResult W) :=
  (st.gl.lookup qsort addr).map fun r => ({ st with gl := r.1 }, r.2)

inductive SymbolEvent (W : Nat)
  | funcAdd (sym : DbgSymbolType W)
  | glAdd (sym : DbgSymbolType W)
  | pc2funcid (pc : AthrillAddrType W)
  | addr2glid (addr : AthrillAddrType W)

def symbolStep (qsort : Sorter) (st : SymbolState W) :
    SymbolEvent W → Option (SymbolState W × SymbolResult W)
  | .funcAdd sym => some (symbolFuncAdd st sym)
  | .glAdd sym => some (symbolGlAdd st sym)
  | .pc2funcid pc => symbolPc2funcid qsort st pc
  | .addr2glid addr => symbolAddr2glid qsort st addr

end Athrill
