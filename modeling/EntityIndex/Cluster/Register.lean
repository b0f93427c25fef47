import EntityIndex.Cluster.World

/-!
# Registering entity types

A type is registered under its name with its index declarations. The names of the type, its
indexes and its interfaces must be non-empty and free of the separators that addresses use
(`/ . @ #`); the declarations must form a schema, and the empty state must have images. Each
index of the type is named `<type>.<index>` in the buckets it owns. A name registers once.
-/

namespace EntityIndex.Cluster

open EntityIndex.Indexing

/-- A name of some kind fit for addresses: non-empty, without `/`, `.`, `@` or `#`. -/
def validName (kind name : String) : Except Error Unit :=
  if name.isEmpty then .error (.config (kind ++ " name is empty"))
  else if name.toList.any fun c => c = '/' ∨ c = '.' ∨ c = '@' ∨ c = '#' then
    .error (.config (kind ++ " name " ++ Quote.quote name ++ " contains one of / . @ #"))
  else .ok ()

namespace World

/-- Register an entity type. -/
def register (name : String) (faultTolerant : Bool) (defs : List (IndexDef Fields)) :
    Run World Unit := do
  checkOpen
  Run.lift (validName "entity type" name)
  defs.forM fun d => do
    Run.lift (validName "index" d.desc.name)
    Run.lift (validName "interface" d.iface)
  let s ← Run.lift (Schema.make name faultTolerant defs)
  match s.extract [] with
  | .ok _ => pure ()
  | .error e => throw (.context ("entity type " ++ name) e)
  let indexes := s.defs.map fun d => (d.desc.name, (⟨qualify name d.desc.name, d.desc⟩ : Bucket.Index))
  let c ← Run.lift (Coordinator.make s (mapOfPairs indexes))
  if ((← get).type? name).isSome then
    throw (.config ("entity type " ++ Quote.quote name ++ " is already registered"))
  modify fun w => { w with types := insertByName name ⟨s, c⟩ w.types }

end World

end EntityIndex.Cluster
