import Mathlib.Logic.Function.Basic

/-!
# Files, links and crashes

A directory as a map from paths to files and symbolic links, with the steps a program
changes it by: create a file, append a byte, create a link, rename. A call is a list of
steps (`perform`), and a process that stops in the middle of a call has done the first few
of them (`List.take`).
-/

namespace MonadBft.FileSystem

open Function

inductive IoError where
  | alreadyExists
  | notFound
  | other
  deriving DecidableEq

/-- What a path names. -/
inductive Entry (P : Type) where
  | file (contents : List UInt8)
  | link (target : P)
  deriving DecidableEq

abbrev Directory (P : Type) := P → Option (Entry P)

def empty {P : Type} : Directory P := fun _ => none

/-- One step of a program, which is done as a whole or not at all. -/
inductive Op (P : Type) where
  | create (path : P)
  | append (path : P) (byte : UInt8)
  | symlink (target path : P)
  | rename (source path : P)

variable {P : Type} [DecidableEq P] {d d' : Directory P} {p q : P}

/-- The contents of the file a path names, through one link. -/
def contents (d : Directory P) (p : P) : Option (List UInt8) :=
  match d p with
  | some (.file bytes) => some bytes
  | some (.link target) =>
    match d target with
    | some (.file bytes) => some bytes
    | _ => none
  | none => none

def Op.apply (d : Directory P) : Op P → Except IoError (Directory P)
  | create path => .ok (update d path (some (.file [])))
  | append path byte =>
    match d path with
    | some (.file bytes) => .ok (update d path (some (.file (bytes ++ [byte]))))
    | _ => .error .notFound
  | symlink target path =>
    match d path with
    | some _ => .error .alreadyExists
    | none => .ok (update d path (some (.link target)))
  | rename source path =>
    match d source with
    | some entry => .ok (update (update d source none) path (some entry))
    | none => .error .notFound

/-- Do steps until one fails. What was done before stays. -/
def perform : List (Op P) → Directory P → Except IoError Unit × Directory P
  | [], d => (.ok (), d)
  | op :: ops, d =>
    match op.apply d with
    | .error e => (.error e, d)
    | .ok d' => perform ops d'

theorem perform_cons_ok {op : Op P} {ops : List (Op P)} (h : op.apply d = .ok d') :
    perform (op :: ops) d = perform ops d' := by
  rw [perform, h]

/-! ## Writing a file -/

/-- Create a file and write its contents, byte by byte. -/
def writeFile (p : P) (bytes : List UInt8) : List (Op P) := .create p :: bytes.map (.append p)

theorem perform_appends (bytes bytes' : List UInt8) :
    perform (bytes'.map (.append p)) (update d p (some (.file bytes))) =
      (.ok (), update d p (some (.file (bytes ++ bytes')))) := by
  induction bytes' generalizing bytes with
  | nil => simp [perform]
  | cons b bytes' ih =>
    have happend : (Op.append p b).apply (update d p (some (.file bytes))) =
        .ok (update d p (some (.file (bytes ++ [b])))) := by
      simp [Op.apply]
    rw [List.map_cons, perform_cons_ok happend, ih, List.append_assoc, List.singleton_append]

theorem perform_writeFile (bytes : List UInt8) :
    perform (writeFile p bytes) d = (.ok (), update d p (some (.file bytes))) := by
  rw [writeFile, perform_cons_ok rfl, perform_appends, List.nil_append]

/-! ## Replacing a link -/

/-- Create a link under a temporary name, and rename it. -/
def replaceLink (target wip p : P) : List (Op P) := [.symlink target wip, .rename wip p]

theorem perform_replaceLink {target wip : P} (hwip : d wip = none) :
    perform (replaceLink target wip p) d =
      (.ok (), update (update d wip none) p (some (.link target))) := by
  have hlink : (Op.symlink target wip).apply d = .ok (update d wip (some (.link target))) := by
    simp [Op.apply, hwip]
  have hrename : (Op.rename wip p).apply (update d wip (some (.link target))) =
      .ok (update (update d wip none) p (some (.link target))) := by
    simp [Op.apply]
  rw [replaceLink, perform_cons_ok hlink, perform_cons_ok hrename, perform]

end MonadBft.FileSystem
