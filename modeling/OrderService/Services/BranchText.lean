import OrderService.Codec.JsonText
import OrderService.Interleaving.Program

/-! The branch cache as text: `getBranch` and `getBranchesByIds` of the branch client, where an
entry may be anything that somebody stored. -/
namespace OrderService
open Interleaving

/-- A row as core sends it; `id` is `Number(b.id)`. -/
structure CoreRow where
  id : Nat
  fields : List (String × Json)
  hasId : getField fields "id" = some (.num (toString id))
  wellFormed : (Json.obj fields).WellFormed

def CoreRow.json (r : CoreRow) : Json := .obj r.fields

/-- Core's current rows, by their ids. -/
structure CoreRows where
  row : Nat → Option CoreRow
  id_row : ∀ id r, row id = some r → r.id = id

namespace BranchText

section Runtime

/-- What Redis holds under `core:branch:<id>`. -/
abbrev Cache := Nat → Option String

inductive Op where
  | get (id : Nat)
  | set (id : Nat) (text : String)
  | requestBranch (id : Nat)
  | requestBranches (ids : List Nat)

abbrev Op.Res : Op → Type
  | .get _ => Option String
  | .set .. => Unit
  | .requestBranch _ => CoreRow
  | .requestBranches _ => List CoreRow

/-- Whether a command or a request fails, and whether a failed command was carried out; what core
answers with. -/
structure Env where
  fail : Bool := false
  applied : Bool := false
  row : Option CoreRow := none
  rows : List CoreRow := []

/-- Core has no row for an id that does not exist, and refuses the request. -/
def exec (o : Op) (e : Env) (c : Cache) : Option (Except Err o.Res × Cache) :=
  match o with
  | .get id => some (if e.fail then (.error .failed, c) else (.ok (c id), c))
  | .set id text =>
    some (if e.fail then (.error .failed, if e.applied then Function.update c id (some text) else c)
      else (.ok (), Function.update c id (some text)))
  | .requestBranch _ =>
    some (if e.fail then (.error .failed, c)
      else match e.row with
        | some row => (.ok row, c)
        | none => (.error .failed, c))
  | .requestBranches _ => some (if e.fail then (.error .failed, c) else (.ok e.rows, c))

/-- An entry ends by itself after an hour. -/
def machine : Machine Pid Op Op.Res Err Cache Env Nat where
  exec _ := exec
  crash _ c := c
  ext id c := Function.update c id none

end Runtime

section Client

abbrev Svc (α : Type) := Prog Op Op.Res Err α

def perform (o : Op) : Svc o.Res := Prog.perform o

/-- `if (raw) try { return JSON.parse(raw) } catch { /* fall through */ }`. -/
def parsed (raw : Option String) : Option Json :=
  raw.bind fun text => if text = "" then none else Json.parse text

/-- A failed `set` is only logged. -/
def store (row : CoreRow) (branchId : Nat) : Svc Unit :=
  tryCatch (perform (.set branchId row.json.stringify)) fun _ => pure ()

def getBranch (branchId : Nat) : Svc Json := do
  let cached ← perform (.get branchId)
  match parsed cached with
  | some branch => pure branch
  | none => do
    let data ← perform (.requestBranch branchId)
    store data branchId
    pure data.json

/-- The `Map` that is returned. -/
abbrev BranchMap := Nat → Option Json

/-- The orders in which the two `Promise.all` may come to their ends. -/
structure Completion where
  gets : List Nat → List Nat
  gets_perm : ∀ ids, (gets ids).Perm ids
  sets : List CoreRow → List CoreRow
  sets_perm : ∀ rows, (sets rows).Perm rows

/-- The cache pass, one lookup after the other as they come back. -/
def lookupBranches : List Nat → BranchMap → List Nat → Svc (BranchMap × List Nat)
  | [], result, misses => pure (result, misses)
  | id :: ids, result, misses => do
    let raw ← perform (.get id)
    match parsed raw with
    | some branch => lookupBranches ids (Function.update result id (some branch)) misses
    | none => lookupBranches ids result (misses ++ [id])

def storeBranches : List CoreRow → Svc Unit
  | [] => pure ()
  | b :: bs => do
    store b b.id
    storeBranches bs

def addRow (result : BranchMap) (b : CoreRow) : BranchMap :=
  Function.update result b.id (some b.json)

def getBranchesByIds (order : Completion) (branchIds : List Nat) : Svc BranchMap :=
  if branchIds.length = 0 then pure fun _ => none
  else do
    let pass ← lookupBranches (order.gets branchIds.dedup) (fun _ => none) []
    if pass.2.length = 0 then pure pass.1
    else do
      let data ← perform (.requestBranches pass.2)
      storeBranches (order.sets data)
      pure (data.foldl addRow pass.1)

end Client

end BranchText

end OrderService
