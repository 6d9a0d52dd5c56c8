import Replanning.Score
import Replanning.RandomStream

namespace Replanning

/-- `a` does not rank behind `b`. -/
def Candidate.notBehind (a b : Candidate) : Bool :=
  b.score.rank ≤ a.score.rank

/-- Shuffles the candidates and sorts them by descending score. -/
def rank (candidates : List Candidate) (s : RandomStream) : List Candidate × RandomStream :=
  let (shuffled, s) := s.shuffle candidates
  (shuffled.mergeSort Candidate.notBehind, s)

end Replanning
