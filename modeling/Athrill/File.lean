import Athrill.StdTypes

/-!
# Files (`lib/file.c`)

`file_load` reads a whole file into memory and `file_getline` the next line of an open one. An image that the
emulator works on came through `file_load`, so it has at most `maxLoadFileSize` bytes (`length_of_fileLoad`).
-/

namespace Athrill

/-- What the host answers to the calls of `file_load` for one path. -/
structure FileHost where
  fopen : Bool
  /-- `st_size`, where `fstat` does not fail. -/
  fstat : Option Int
  malloc : Bool
  contents : List UInt8
  deriving DecidableEq, Repr

inductive FileLoadError
  | fopen
  | fstat
  | size
  | malloc
  | fread
  deriving DecidableEq, Repr

/-- `MAX_LOAD_FILE_SIZE` -/
def maxLoadFileSize : Nat := 1024 * 1024 * 1024

def fileLoad (host : FileHost) : Except FileLoadError (List UInt8) :=
  if host.fopen = false then .error .fopen
  else
    match host.fstat with
    | none => .error .fstat
    | some size =>
      if size ≤ 0 ∨ maxLoadFileSize < size then .error .size
      else if host.malloc = false then .error .malloc
      -- `fread` asks for one item of the whole size
      else if host.contents.length < size.toNat then .error .fread
      else .ok (host.contents.take size.toNat)

/-- A host on which the file is there with these contents. -/
def FileHost.holding (data : List UInt8) : FileHost := ⟨true, some data.length, true, data⟩

theorem length_of_fileLoad {host : FileHost} {data : List UInt8} (h : fileLoad host = .ok data) :
    data.length ≤ maxLoadFileSize := by
  unfold fileLoad at h
  cases hstat : host.fstat with
  | none =>
    simp only [hstat] at h
    split_ifs at h
  | some size =>
    simp only [hstat] at h
    split_ifs at h with hopen hsize
    rw [← Except.ok.inj h, List.length_take]
    omega

/-- A line of at most `room` bytes, and what is left to read behind it. -/
def fileGetline : Nat → List UInt8 → List UInt8 × List UInt8
  | 0, rest => ([], rest)
  | _ + 1, [] => ([], [])
  | room + 1, c :: rest =>
    if c = 10 then ([], rest)
    else (c :: (fileGetline room rest).1, (fileGetline room rest).2)

theorem length_fileGetline (room : Nat) (file : List UInt8) : (fileGetline room file).1.length ≤ room := by
  induction room generalizing file with
  | zero => simp [fileGetline]
  | succ room ih =>
    cases file with
    | nil => simp [fileGetline]
    | cons c rest =>
      rw [fileGetline]
      split_ifs
      · simp
      · exact Nat.succ_le_succ (ih rest)

end Athrill
