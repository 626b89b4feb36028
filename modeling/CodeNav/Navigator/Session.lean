import CodeNav.Navigator

namespace CodeNav.Navigator

inductive Step where
  | change (c : PageChange)
  /-- A click, during which the remote side behaves as given. -/
  | click (remote : Option Remote) (r : Request)

/-- Makes a step. A change of the page answers nothing, and one that fails changes nothing. -/
def step (n : Navigator) : Step → Outcome
  | .change c =>
    match n.change c with
    | .ok m => { navigator := m, log := n.changeLog c, result := .ok none }
    | .error e => { navigator := n, log := n.changeLog c, result := .error (.catalog e) }
  | .click remote r => n.navigate remote r

def after (n : Navigator) (steps : List Step) : Navigator :=
  steps.foldl (fun n s => (n.step s).navigator) n

def run (n : Navigator) : List Step → List Outcome
  | [] => []
  | s :: ss => n.step s :: (n.step s).navigator.run ss

end CodeNav.Navigator
