import SemanticHypergraph.Store.Numbered
import SemanticHypergraph.Store.Ordered

/-!
# Stores

A store of either kind, as the settings choose: the ordered one lives in memory, the numbered one is
kept in a file.
-/
namespace SemanticHypergraph

inductive Store where
  | ordered (s : OrderedStore)
  | numbered (s : NumberedStore)

namespace Store

def empty (backend : BackendKind) (name : String) (policy : PrimaryPolicy) : Store :=
  match backend with
  | .memory => ordered (.empty name policy)
  | .file => numbered (.empty name policy)

/-- A new store, if the settings can be used. -/
def create (settings : StoreSettings) : Except Error Store :=
  settings.validate.map fun _ =>
    empty settings.backend settings.resolvedName settings.primaryPolicy

def backend : Store → BackendKind
  | ordered _ => .memory
  | numbered _ => .file

def policy : Store → PrimaryPolicy
  | ordered s => s.policy
  | numbered s => s.policy

def isPersistent (s : Store) : Bool := s.backend == .file

/-- The store as it is after being closed and opened again. -/
def reopen : Store → Store
  | ordered s => ordered (.empty s.name s.policy)
  | numbered s => numbered s

def query {α : Type} (s : Store) (onOrdered : OrderedStore → Except Error α)
    (onNumbered : NumberedStore → Except Error α) : Except Error α :=
  match s with
  | ordered s => onOrdered s
  | numbered s => onNumbered s

def change {α : Type} (onOrdered : Update OrderedStore α) (onNumbered : Update NumberedStore α) :
    Update Store α
  | ordered s => let (result, t) := onOrdered s; (result, ordered t)
  | numbered s => let (result, t) := onNumbered s; (result, numbered t)

open SemanticHypergraph.Hypergraph in
instance : Hypergraph Store where
  name s := match s with
    | ordered s => s.name
    | numbered s => s.name
  contains s e := s.query (contains · e) (contains · e)
  insert e isPrimary := change (insert e isPrimary) (insert e isPrimary)
  delete e := change (delete e) (delete e)
  isPrimary s e := s.query (isPrimary · e) (isPrimary · e)
  setPrimary e isPrimary := change (setPrimary e isPrimary) (setPrimary e isPrimary)
  entities s := s.query entities entities
  attributeOf s e name := s.query (attributeOf · e name) (attributeOf · e name)
  setAttribute e name value := change (setAttribute e name value) (setAttribute e name value)
  stepAttribute e name step := change (stepAttribute e name step) (stepAttribute e name step)
  degree s e := s.query (degree · e) (degree · e)
  star s e limit := s.query (star · e limit) (star · e limit)
  counts s := s.query counts counts
  destroy := change destroy destroy
  close := change close close
  deepDegree s e := s.query (deepDegree · e) (deepDegree · e)
  lookupRoot s root := s.query (lookupRoot · root) (lookupRoot · root)
  lookupAtoms s atoms root := s.query (lookupAtoms · atoms root) (lookupAtoms · atoms root)
  search s template := s.query (search · template) (search · template)
  attributes s := s.query attributes attributes

end Store

end SemanticHypergraph
