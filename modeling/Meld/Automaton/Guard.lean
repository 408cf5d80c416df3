import Meld.Card.Token

namespace Meld

/-- What a transition asks of a card. An epsilon transition takes no card. -/
inductive Guard where
  | epsilon
  | card (card : Card)
  | rank (rank : Rank)
  | color (color : Color)
  | otherwise
  deriving DecidableEq, Repr

namespace Guard

def fits (g : Guard) (c : Card) : Bool :=
  match g with
  | epsilon => false
  | card d => d = c
  | rank r => r = c.rank
  | color k => k = c.color
  | otherwise => true

def index : Guard → Nat
  | epsilon => 0
  | card _ => 1
  | rank _ => 2
  | color _ => 3
  | otherwise => 4

def detail : Guard → Nat
  | card c => c.index
  | rank r => r.index
  | color k => k.index
  | _ => 0

/-- Precedence: an exact card comes before a rank, that before a color, and that before
everything else. -/
def precedes (g h : Guard) : Bool :=
  g.index < h.index || (g.index = h.index && g.detail < h.detail)

def sort (guards : List Guard) : List Guard := guards.mergeSort fun g h => !h.precedes g

theorem precedes_irrefl (g : Guard) : g.precedes g = false := by simp [precedes]

theorem precedes_trans {g h k : Guard} (gh : g.precedes h = true) (hk : h.precedes k = true) :
    g.precedes k = true := by
  simp only [precedes, Bool.or_eq_true, Bool.and_eq_true, decide_eq_true_eq] at *
  omega

end Guard
end Meld
