/-
# Module registry

`ModuleRegistry.cpp` without relocations: the four containers of the registry and the calls
that add, retain, unload and look up modules.  The hash maps are association lists; a walk
over one of them follows the list, whose order stands for whatever order the map has.
-/
import ChuckStation.LoaderMap

namespace ModuleRegistry

open Memory Loader

/-! ## Data model -/

abbrev ModuleId := U32

abbrev INVALID_MODULE : ModuleId := 0

/-- `struct ExportedSymbol`. -/
structure ExportedSymbol where
  name : List Byte := []
  address : U64 := 0
  size : U64 := 0
  type : Byte := 0
  owner : ModuleId := INVALID_MODULE
  deriving DecidableEq, Repr

/-- `struct ModuleDesc`. -/
structure ModuleDesc where
  id : ModuleId := INVALID_MODULE
  name : List Byte := []
  path : List Byte := []
  elfInfo : ExecutableInfo := {}
  deps : List ModuleId := []
  exports : List ExportedSymbol := []
  refCount : U32 := 0
  isMain : Bool := false
  loaded : Bool := false
  baseAddr : U64 := 0
  size : U64 := 0
  deriving DecidableEq, Repr

abbrev ModuleMap := AList fun _ : ModuleId => ModuleDesc

abbrev NameMap := AList fun _ : List Byte => ModuleId

/-- `struct RegistryState`. -/
structure RegistryState where
  modules : ModuleMap := ∅
  byName : NameMap := ∅
  loadOrder : List ModuleId := []
  nextId : ModuleId := 1
  mainModule : ModuleId := INVALID_MODULE

/-! ## Registration -/

/-- `STT_OBJECT` and `STT_FUNC`. -/
abbrev STT_OBJECT : Byte := 1
abbrev STT_FUNC : Byte := 2

/-- The symbols of the table that are exported. -/
def isExported (sym : Symbol) : Bool :=
  (sym.type == STT_FUNC || sym.type == STT_OBJECT) && (sym.name != [] && sym.value != 0)

def exportOf (id : ModuleId) (elfInfo : ExecutableInfo) (sym : Symbol) : ExportedSymbol where
  name := sym.name
  address := sym.value + elfInfo.imageBase
  size := sym.size
  type := sym.type
  owner := id

/-- The export loop of `Register`. -/
def exportsOf (id : ModuleId) (elfInfo : ExecutableInfo) : List ExportedSymbol :=
  (elfInfo.symbols.filter isExported).map (exportOf id elfInfo)

/-- `rs.modules[id].refCount++`; the subscript makes the entry if there is none. -/
def addReference (id : ModuleId) (r : RegistryState) : RegistryState :=
  let m := (r.modules.lookup id).getD {}
  { r with modules := r.modules.insert id { m with refCount := m.refCount + 1 } }

/-- The descriptor `Register` makes of an executable. -/
def newDesc (id : ModuleId) (name path : List Byte) (elfInfo : ExecutableInfo) (isMain : Bool) :
    ModuleDesc where
  id := id
  name := name
  path := path
  elfInfo := elfInfo
  exports := exportsOf id elfInfo
  refCount := 1
  isMain := isMain
  loaded := true
  baseAddr := elfInfo.imageBase
  size := elfInfo.imageSize

/-- `Register` by name. -/
def register (name path : List Byte) (elfInfo : ExecutableInfo) (isMain : Bool)
    (r : RegistryState) : ModuleId × RegistryState :=
  match r.byName.lookup name with
  | some id => (id, addReference id r)
  | none =>
    let id := r.nextId
    (id, { modules := r.modules.insert id (newDesc id name path elfInfo isMain)
           byName := r.byName.insert name id
           loadOrder := r.loadOrder ++ [id]
           nextId := r.nextId + 1
           mainModule := if isMain then id else r.mainModule })

/-- The id `Register` gives a descriptor: its own, if it has one. -/
def idFor (desc : ModuleDesc) (r : RegistryState) : ModuleId :=
  if desc.id ≠ INVALID_MODULE then desc.id else r.nextId

/-- `Register` of a descriptor; neither its name nor its id is looked up. -/
def registerDesc (desc : ModuleDesc) (r : RegistryState) : ModuleId × RegistryState :=
  let id := idFor desc r
  (id, { modules := r.modules.insert id { desc with id := id }
         byName := r.byName.insert desc.name id
         loadOrder := r.loadOrder ++ [id]
         nextId := if desc.id ≠ INVALID_MODULE then r.nextId else r.nextId + 1
         mainModule := r.mainModule })

/-- `Retain`. -/
def retain (id : ModuleId) (r : RegistryState) : Bool × RegistryState :=
  match r.modules.lookup id with
  | none => (false, r)
  | some m =>
    (true, { r with modules := r.modules.insert id { m with refCount := m.refCount + 1 } })

section Registration

variable {r : RegistryState} {name : List Byte} {id : ModuleId} {m : ModuleDesc}

/-- A known name costs a reference. -/
theorem register_of_some (h : r.byName.lookup name = some id) (path : List Byte)
    (elfInfo : ExecutableInfo) (isMain : Bool) :
    register name path elfInfo isMain r = (id, addReference id r) := by
  rw [register, h]

/-- A new name is handed the next id. -/
theorem register_of_none (h : r.byName.lookup name = none) (path : List Byte)
    (elfInfo : ExecutableInfo) (isMain : Bool) :
    register name path elfInfo isMain r = (r.nextId,
      { modules := r.modules.insert r.nextId (newDesc r.nextId name path elfInfo isMain)
        byName := r.byName.insert name r.nextId
        loadOrder := r.loadOrder ++ [r.nextId]
        nextId := r.nextId + 1
        mainModule := if isMain then r.nextId else r.mainModule }) := by
  rw [register, h]

theorem retain_of_none (h : r.modules.lookup id = none) : retain id r = (false, r) := by
  rw [retain, h]

theorem retain_of_some (h : r.modules.lookup id = some m) :
    retain id r =
      (true, { r with modules := r.modules.insert id { m with refCount := m.refCount + 1 } }) := by
  rw [retain, h]

end Registration

/-! ## Unloading -/

/-- Another module lists this one among its dependencies. -/
def hasDependents (id : ModuleId) (r : RegistryState) : Bool :=
  r.modules.entries.any fun e => e.1 != id && e.2.deps.contains id

/-- The module leaves three of the containers. -/
def removeModule (id : ModuleId) (m : ModuleDesc) (r : RegistryState) : RegistryState :=
  { r with
    modules := r.modules.erase id
    byName := r.byName.erase m.name
    loadOrder := r.loadOrder.filter fun other => other != id }

/-- The executable of a module that counts as loaded is unloaded. -/
def releaseModule (os : Os) (m : ModuleDesc) (mem : Process) : Process :=
  if m.loaded then (unloadExecutable os m.elfInfo mem).2.2 else mem

/-- `Unload`. -/
def unload (os : Os) (id : ModuleId) (r : RegistryState) (mem : Process) :
    Bool × RegistryState × Process :=
  match r.modules.lookup id with
  | none => (false, r, mem)
  | some m =>
    if 1 < m.refCount then
      let modules := r.modules.insert id { m with refCount := m.refCount - 1 }
      (true, { r with modules := modules }, mem)
    else if hasDependents id r then (false, r, mem)
    else (true, removeModule id m r, releaseModule os m mem)

/-- `Reset`: last module first.  The counter of ids goes on. -/
def reset (os : Os) (r : RegistryState) (mem : Process) : RegistryState × Process :=
  let mem := r.loadOrder.reverse.foldl (fun mem id =>
    match r.modules.lookup id with
    | none => mem
    | some m => releaseModule os m mem) mem
  ({ nextId := r.nextId }, mem)

/-! ## Symbols -/

/-- `ResolveSymbol`: the first module in load order that exports the name. -/
def resolveSymbol (name : List Byte) (r : RegistryState) : Option ExportedSymbol :=
  r.loadOrder.findSome? fun id =>
    (r.modules.lookup id).bind fun m => m.exports.find? fun sym => sym.name == name

end ModuleRegistry
