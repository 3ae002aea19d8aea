import Cuescript.Execution.World

/-!
Requirements asked for a target. A requirement for another type of target says nothing; one that
is checked once and has passed is not asked again.
-/
namespace Cuescript.World

variable {ν : Type}

def effective (config : RequirementConfig) (o : Outcome) : Outcome :=
  if config.negated then o.negate else o

def test (w : World ν) (n : RequirementNode) (t : Target) (c : Context) : Outcome × World ν :=
  if n.requirement.accepts ≠ t.type then (.empty, w)
  else if n.config.checkOnce && w.store.hasPassed (n.id, t.id) then (.passed, w)
  else
    let report := n.requirement.test t.value c
    let w := w.enter n.id t.id (.tested report.result) report.notes
    let o := effective n.config report.result
    if n.config.checkOnce && o.isSuccess then
      (o, { w with store := w.store.markPassed (n.id, t.id) w.clock })
    else (o, w)

def testEach (w : World ν) (ns : List RequirementNode) (t : Target) (c : Context) :
    List Outcome × World ν :=
  match ns with
  | [] => ([], w)
  | n :: rest =>
    let (o, w) := w.test n t c
    let (os, w) := w.testEach rest t c
    (o :: os, w)

def testAll (w : World ν) (ns : List RequirementNode) (t : Target) (c : Context) :
    Combined × World ν :=
  let (os, w) := w.testEach ns t c
  (⟨os⟩, w)

def testForest (w : World ν) (f : Forest) (t : Target) (c : Context) : Combined × World ν :=
  w.testAll f.requirements t c

end Cuescript.World
