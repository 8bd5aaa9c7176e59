import Mathlib.Init

/-!
# Booting the registered services

Scripts register services, each a name, a namespace and the namespaces it depends on.  From
the root service on, the required ones are started in the order of their dependencies.
Tables are lists of rows; the null symbol is the empty one.
-/

namespace MgKdb

abbrev Sym := String

namespace Boot

def null : Sym := ""

/-- A row of `.boot.svcs`. -/
structure Service where
  name : Sym
  file : Sym
  nspace : Sym
  deps : List Sym
  deriving DecidableEq, Repr

inductive BootError where
  | duplicate (name nspace : Sym)
  | noRootName
  | noService (root : Sym)
  | noServices
  | dependencyCycle
  | initFail
  /-- The model's bound on iterations; adequate bounds never reach it. -/
  | outOfFuel
  deriving DecidableEq, Repr

/-- The text that is signalled, up to the printed table behind a duplicate. -/
def BootError.text : BootError -> String
  | duplicate name nspace =>
      "Duplicate name/namespace registration for " ++ name ++ "/" ++ nspace ++ "\n"
  | noRootName => "No root-script name provided"
  | noService root => "Cannot find service " ++ root
  | noServices => "No services to start"
  | dependencyCycle => "dependency.cycle"
  | initFail => "init.fail"
  | outOfFuel => ""

/-!
## Registration
-/

def register1 (svcs : List Service) (s : Service) : Except BootError (List Service) :=
  if svcs.any (fun r => r.name == s.name || r.nspace == s.nspace) then
    .error (.duplicate s.name s.nspace)
  else .ok (svcs ++ [s])

def registerAll : List Service -> List Service -> Except BootError (List Service)
  | svcs, [] => .ok svcs
  | svcs, s :: ss =>
      match register1 svcs s with
      | .error e => .error e
      | .ok svcs' => registerAll svcs' ss

/-!
## What the root requires
-/

/-- `exec distinct raze deps from T where nspace in S` -/
def depsOf (T : List Service) (S : List Sym) : List Sym :=
  ((T.filter fun s => S.contains s.nspace).flatMap Service.deps).eraseDups

/-- `delete from T where nspace in S` -/
def deleteIn (T : List Service) (S : List Sym) : List Service :=
  T.filter fun s => !S.contains s.nspace

theorem exists_of_depsOf_ne_nil {T : List Service} {S : List Sym} (h : depsOf T S ≠ []) :
    exists s, s ∈ T ∧ S.contains s.nspace = true := by
  cases hrows : T.filter fun s => S.contains s.nspace with
  | nil =>
      rw [depsOf, hrows] at h
      exact absurd rfl h
  | cons s rows =>
      have hs : s ∈ T.filter fun s => S.contains s.nspace := by
        rw [hrows]
        exact List.mem_cons_self
      exact ⟨s, List.mem_filter.mp hs⟩

theorem length_deleteIn_lt {T : List Service} {S : List Sym} (h : depsOf T S ≠ []) :
    (deleteIn T S).length < T.length := by
  rcases exists_of_depsOf_ne_nil h with ⟨s, hs, hin⟩
  refine List.length_filter_lt_length_iff_exists.mpr ⟨s, hs, ?_⟩
  rw [hin]
  decide

def plot (T : List Service) (S : List Sym) : List Sym :=
  if depsOf T S = [] then []
  else (depsOf T S ++ plot (deleteIn T S) (depsOf T S)).eraseDups
termination_by T.length
decreasing_by exact length_deleteIn_lt ‹_›

/-!
## Cycles
-/

/-- `(count P)<>count distinct P` is an error. -/
def uniqChk (P : List Sym) : Except BootError Unit :=
  if P.length ≠ P.eraseDups.length then .error .dependencyCycle else .ok ()

def first (P : List Sym) : Sym := P.headD null

def last (P : List Sym) : Sym := P.getLastD null

/-- All paths that two of the given ones make, the second without its first symbol. -/
def joinPaths (E : List (List Sym)) : List (List Sym) :=
  (E.filter fun p => E.any fun q => last p == first q).flatMap fun p =>
    (E.filter fun q => last p == first q).map fun q => p ++ q.drop 1

def cycleChk (E : List (List Sym)) : Except BootError (List (List Sym)) := do
  forM (joinPaths E) uniqChk
  return joinPaths E

/-!
## Starting
-/

/-- A row of an ungrouped table: a namespace and one of its dependencies. -/
abbrev Row := Sym × Sym

def ungroup (svcs : List (Sym × List Sym)) : List Row :=
  svcs.flatMap fun s => s.2.map fun d => (s.1, d)

def leafRows (T : List Row) : List Row :=
  T.filter fun row => T.all fun other => other.1 != row.1 || other.2 == null

/-- `exec nspace from T where ((all null@);deps) fby nspace` -/
def leaves (T : List Row) : List Sym :=
  (leafRows T).map Prod.fst

/-- Call an init function; `ini` says which ones succeed. -/
def start (ini : Sym -> Bool) (N : Sym) (called : List Sym) :
    Except BootError (List Sym) :=
  if ini N then .ok (called ++ [N]) else .error .initFail

def startEach (ini : Sym -> Bool) : List Sym -> List Sym -> Except BootError (List Sym)
  | [], called => .ok called
  | N :: nsp, called =>
      match start ini N called with
      | .error e => .error e
      | .ok called' => startEach ini nsp called'

def startLeaves (ini : Sym -> Bool) (T : List Row) (called : List Sym) :
    Except BootError (List Row × List Sym) :=
  match startEach ini (leaves T) called with
  | .error e => .error e
  | .ok called' =>
      .ok (T.filter fun row =>
        !((leaves T).contains row.1 || (leaves T).contains row.2), called')

/-- `f/[x]` for a function of a value and of what it changes besides. -/
def converge {α σ : Type} [DecidableEq α] (f : α -> σ -> Except BootError (α × σ)) (x0 : α) :
    Nat -> α -> σ -> Except BootError (α × σ)
  | 0, _, _ => .error .outOfFuel
  | fuel + 1, x, s =>
      match f x s with
      | .error e => .error e
      | .ok (y, s') => if y = x ∨ y = x0 then .ok (y, s') else converge f x0 fuel y s'

/-- Pairs of a namespace and a dependency; a service without any has the null symbol. -/
def edges (svcs : List Service) : List Row :=
  ungroup (svcs.map fun s => (s.nspace, if s.deps.length = 0 then s.deps ++ [null] else s.deps))

/-- The rows to start from: every service has the null symbol as well. -/
def startRows (svcs : List Service) : List Row :=
  ungroup (svcs.map fun s => (s.nspace, s.deps ++ [null]))

def checkRound (E : List (List Sym)) (_ : Unit) :
    Except BootError (List (List Sym) × Unit) :=
  (cycleChk E).map fun pth => (pth, ())

def checkCycles (svcs : List Service) : Except BootError Unit :=
  let E := (edges svcs).map fun e => [e.1, e.2]
  match converge checkRound E (E.length + 2) E () with
  | .error e => .error e
  | .ok _ => .ok ()

def startAll (ini : Sym -> Bool) (svcs : List Service) : Except BootError (List Sym) :=
  let T := startRows svcs
  match converge (startLeaves ini) T (T.length + 1) T [] with
  | .error e => .error e
  | .ok out => .ok out.2

/-- The services that the namespace `nsp` requires. -/
def required (svcs : List Service) (nsp : Sym) : List Service :=
  svcs.filter fun s => (nsp :: plot svcs [nsp]).contains s.nspace

/--
`.boot.init`, for the command line `zx` and the services the scripts register: an
error, or the init functions in the order in which they were called.
-/
def init (ini : Sym -> Bool) (zx : List Sym) (regs : List Service) :
    Except BootError (List Sym) :=
  match registerAll [] regs with
  | .error e => .error e
  | .ok svcs =>
      match zx with
      | [] => .error .noRootName
      | root :: _ =>
          match svcs.find? fun s => s.name == root with
          | none => .error (.noService root)
          | some s =>
              if (required svcs s.nspace).length = 0 then .error .noServices
              else
                match checkCycles (required svcs s.nspace) with
                | .error e => .error e
                | .ok () => startAll ini (required svcs s.nspace)

example : (init (fun _ => true) ["web"]
    [⟨"krb5", "krb5.q", ".krb", [".utl"]⟩, ⟨"util", "util.q", ".utl", []⟩,
      ⟨"web", "web.q", ".web", [".krb", ".utl"]⟩]).toOption =
    some [".utl", ".krb", ".web"] := by
  decide +kernel

end Boot

end MgKdb
