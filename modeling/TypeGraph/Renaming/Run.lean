import TypeGraph.Renaming.Apply

/-! Runs of renamings, each applied to the configuration of an earlier step. -/

namespace TypeGraph

structure Step where
  source : Nat
  change : Renaming

namespace Step

/-- The result of a step, and the configuration that it leaves: a failed step passes its
source on. -/
def take (s : Step) (c : Config) : Validation MissingType Renamed × Config :=
  match s.change.apply c with
  | .success renamed => (.success renamed, renamed.config)
  | .failure e => (.failure e, c)

end Step

structure Run where
  configs : List Config
  results : List (Validation MissingType Renamed)

namespace Run

def start (c : Config) : Run := ⟨[c], []⟩

def step? (run : Run) (s : Step) : Option Run :=
  run.configs[s.source]?.map fun c =>
    let (result, next) := s.take c
    ⟨run.configs ++ [next], run.results ++ [result]⟩

def steps? (run : Run) (steps : List Step) : Option Run := steps.foldlM step? run

end Run
end TypeGraph
