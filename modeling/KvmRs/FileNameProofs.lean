import KvmRs.TextProofs

/-! # File names of received files

    Which names `handle_transfer` uses in the downloads directory: the offered
    name reduced to a bare file name, the `.part` name next to it, and the
    candidates that `unique_dest_path` tries.  Paths follow the Unix rules of
    `std::path`. -/

namespace KvmFileName

open KvmText

/-- A file name in the downloads directory. -/
abbrev Name := List Char

/-- `Path::file_name`: the last component, unless it is `..`.  Empty
    components and `.` are skipped. -/
def fileName (path : List Char) : Option Name :=
  match ((path.splitOn '/').filter (fun c => c ≠ [] ∧ c ≠ ['.'])).getLast? with
  | some c => if c = ['.', '.'] then none else some c
  | none => none

/-- Reduces `name` to a bare, safe file name. -/
def sanitizeFileName (name : List Char) : Name :=
  let candidate := trim ((fileName name).getD [])
  if candidate = [] ∨ candidate = ['.'] ∨ candidate = ['.', '.']
      ∨ candidate.any isControl = true then
    "received_file".toList
  else candidate

/-- Split at the last dot: what is before it (if there is one) and after. -/
def rsplitFileAtDot (file : Name) : Option Name × Option Name :=
  if file = ['.', '.'] then (some file, none)
  else
    let after := (file.reverse.takeWhile (· ≠ '.')).reverse
    match file.reverse.dropWhile (· ≠ '.') with
    | [] => (none, some after)
    | _ :: before =>
        -- a leading dot belongs to the stem
        if before = [] then (some file, none)
        else (some before.reverse, some after)

def fileStem (name : Name) : Option Name :=
  (fileName name).bind fun f =>
    let split := rsplitFileAtDot f
    split.1.or split.2

def extension (name : Name) : Option Name :=
  (fileName name).bind fun f =>
    let split := rsplitFileAtDot f
    split.1.bind fun _ => split.2

/-- The `i`-th name that `unique_dest_path` tries. -/
def candidateName (name : Name) (i : Nat) : Name :=
  if i = 0 then name
  else
    let stem := (fileStem name).getD name
    match extension name with
    | some e => stem ++ " (".toList ++ Nat.toDigits 10 i ++ ").".toList ++ e
    | none => stem ++ " (".toList ++ Nat.toDigits 10 i ++ ")".toList

theorem toDigits_injective {i j : Nat}
    (h : Nat.toDigits 10 i = Nat.toDigits 10 j) : i = j := by
  have hi : Nat.ofDigitChars 10 (Nat.toDigits 10 i) 0 = i :=
    Nat.ofDigitChars_ten_toDigits
  rw [h, Nat.ofDigitChars_ten_toDigits] at hi
  exact hi.symm

/-- The numbered candidates are all different. -/
theorem candidateName_injective {name : Name} {i j : Nat}
    (h : candidateName name (i + 1) = candidateName name (j + 1)) :
    i = j := by
  rw [candidateName, candidateName, if_neg (Nat.succ_ne_zero i),
    if_neg (Nat.succ_ne_zero j)] at h
  cases hext : extension name with
  | none =>
      rw [hext] at h
      have hd := List.append_cancel_left
        (List.append_cancel_right h)
      exact Nat.succ.inj (toDigits_injective hd)
  | some e =>
      rw [hext] at h
      have hd := List.append_cancel_left
        (List.append_cancel_right (List.append_cancel_right h))
      exact Nat.succ.inj (toDigits_injective hd)

/-- The name under which a file is received. -/
def partName (safeName : Name) : Name := safeName ++ ".part".toList

example : sanitizeFileName "../../etc/passwd".toList = "passwd".toList := by
  decide

example : candidateName "notes.txt".toList 2 = "notes (2).txt".toList := by
  decide

end KvmFileName
