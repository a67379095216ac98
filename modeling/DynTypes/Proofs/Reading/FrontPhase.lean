import DynTypes.Proofs.Grammar.Accepts
import DynTypes.Proofs.Grammar.Characters
import DynTypes.Proofs.Reading.Assembly
import DynTypes.Proofs.Reading.Front
/-!
# Fronts and phases

A front says in which phase the grammar machine is behind it and how many collections are open
there. Where the machine takes a character outside of constraint lists, the front goes on with it,
and the machine is in the phase of the front that follows.
-/

namespace DynTypes

open Grammar Token

namespace Outline

def Element.isBare : Element → Bool
  | .named _ _ _ _ | .unnamed _ _ => false
  | .method _ | .token _ => true

namespace Begun

/-- The phase of the grammar machine behind the beginning of an alternative. -/
def phase : Begun → Phase
  | .nothing => .start
  | .mark _ => .bareMark
  | .bare _ _ => .bareWord
  | .named _ false => .name
  | .named _ true => .marked
  | .slotted _ _ _ => .slotted
  | .whole e => .done e.isBare

variable {begun next : Begun} {depth : Nat} {c : Char} {token : Token} {target : Phase × Nat}

theorem phase_ne_gap (begun : Begun) : begun.phase ≠ .gap := by
  rcases begun with _ | _ | _ | ⟨_, _ | _⟩ | _ | _ <;> simp [phase]

theorem lists_phase (begun : Begun) (depth : Nat) : (begun.phase.state depth).lists = 0 := by
  rcases begun with _ | _ | _ | ⟨_, _ | _⟩ | _ | _ <;> rfl

theorem Writes.after (h : begun.Writes c next) (depth : Nat) :
    begun.phase.after depth (.ofChar c) = some (next.phase, depth) := by
  cases h with
  | mark kind => cases kind <;> rfl
  | bareSingle hc => exact after_methodChar hc rfl rfl
  | bareConcat hc => exact after_methodChar hc rfl rfl
  | nameSingle hc => exact after_nameChar hc rfl
  | nameConcat hc => exact after_nameChar hc rfl
  | question => rfl

/-- Where the machine takes a character that the assembly writes, the alternative goes on. -/
theorem exists_writes (hafter : begun.phase.after depth (.ofChar c) = some target)
    (hc : Assembly.IsWritten c) : ∃ next, begun.Writes c next := by
  have hplain : ∀ token d, Token.ofChar c = token → token.char? = some d →
      d ∉ ['|', '<', ',', '>', '('] := by
    intro token d htoken hd
    rw [← eq_of_ofChar_eq htoken hd]
    exact hc.2
  cases htoken : Token.ofChar c with
  | bar | openAngle | comma | closeAngle | openParen =>
      exact absurd (by decide) (hplain _ _ htoken rfl)
  | closeParen | slash | quote | finish =>
      rw [htoken] at hafter
      rcases begun with _ | _ | _ | ⟨_, _ | _⟩ | _ | _ <;> cases hafter
  | space =>
      have hspace := ofChar_eq_space_iff.1 htoken
      rw [hc.1] at hspace
      contradiction
  | hash =>
      obtain rfl : c = '#' := eq_of_ofChar_eq htoken rfl
      rcases begun with _ | _ | _ | ⟨_, _ | _⟩ | _ | _ <;> cases hafter
      exact ⟨_, .mark .method⟩
  | colon =>
      obtain rfl : c = ':' := eq_of_ofChar_eq htoken rfl
      rcases begun with _ | _ | _ | ⟨_, _ | _⟩ | _ | _ <;> cases hafter
      exact ⟨_, .mark .token⟩
  | question =>
      obtain rfl : c = '?' := eq_of_ofChar_eq htoken rfl
      rcases begun with _ | _ | _ | ⟨_, _ | _⟩ | _ | _ <;> cases hafter
      · exact ⟨_, .bareSingle rfl⟩
      · exact ⟨_, .bareConcat rfl⟩
      · exact ⟨_, .question⟩
  | other =>
      rw [htoken] at hafter
      have hname := ofChar_eq_other_iff.1 htoken
      have hmethod := isMethodChar_of_isNameChar hname
      rcases begun with _ | _ | _ | ⟨_, _ | _⟩ | _ | _ <;> cases hafter
      · exact ⟨_, .nameSingle hname⟩
      · exact ⟨_, .bareSingle hmethod⟩
      · exact ⟨_, .bareConcat hmethod⟩
      · exact ⟨_, .nameConcat hname⟩

/-- What may stand behind an alternative, if that may end here. -/
theorem after_of_element {e : Element} (he : begun.element? = some e)
    (htoken : token ∈ [bar, comma, closeAngle, space]) :
    begun.phase.after depth token = Phase.afterDone e.isBare depth token := by
  simp only [List.mem_cons, List.not_mem_nil, or_false] at htoken
  cases begun with
  | nothing | mark => cases he
  | bare kind name =>
      cases he
      cases kind <;> obtain rfl | rfl | rfl | rfl := htoken <;> rfl
  | named name optional =>
      cases he
      cases optional <;> obtain rfl | rfl | rfl | rfl := htoken <;> rfl
  | slotted name optional slots =>
      cases he
      obtain rfl | rfl | rfl | rfl := htoken <;> rfl
  | whole e =>
      cases he
      rfl

/-- Where an alternative ends, it may end. -/
theorem exists_element (hafter : begun.phase.after depth token = some target)
    (htoken : token ∈ [bar, comma, closeAngle]) : ∃ e, begun.element? = some e := by
  simp only [List.mem_cons, List.not_mem_nil, or_false] at htoken
  cases begun with
  | nothing | mark => obtain rfl | rfl | rfl := htoken <;> cases hafter
  | bare | named | slotted | whole => exact ⟨_, rfl⟩

theorem exists_element_of_mayEnd (hend : begun.phase.mayEnd = true) :
    ∃ e, begun.element? = some e := by
  cases begun with
  | nothing | mark => contradiction
  | bare | named | slotted | whole => exact ⟨_, rfl⟩

theorem eq_named_of_after (hafter : begun.phase.after depth openAngle = some target) :
    ∃ name optional, begun = .named name optional := by
  rcases begun with _ | _ | _ | ⟨name, _ | _⟩ | _ | _ <;> cases hafter <;> exact ⟨name, _, rfl⟩

theorem exists_withList {pairs : List Pair} (hne : pairs ≠ [])
    (hafter : begun.phase.after depth openParen = some target) :
    ∃ e, begun.withList? pairs = some e ∧ e.isBare = false := by
  obtain ⟨first, others, rfl⟩ := List.exists_cons_of_ne_nil hne
  rcases begun with _ | _ | _ | ⟨_, _ | _⟩ | _ | _ <;> cases hafter <;> exact ⟨_, rfl, rfl⟩

end Begun

namespace Front

variable {f next : Front} {c : Char}

/-- The machine goes where the front goes. -/
theorem Moves.after (hmoves : f.Moves c next) :
    f.begun.phase.after f.outer.length (.ofChar c) =
      some (next.begun.phase, next.outer.length) := by
  cases hmoves with
  | write hwrites => exact hwrites.after _
  | blank hc =>
      rw [ofChar_eq_space_iff.2 hc]
      rfl
  | space hc he =>
      rw [ofChar_eq_space_iff.2 hc]
      exact Begun.after_of_element he (by decide)
  | bar he => exact Begun.after_of_element he (by decide)
  | @openAngle _ _ name optional => cases optional <;> rfl
  | comma he => exact Begun.after_of_element he (by decide)
  | closeAngle he => exact Begun.after_of_element he (by decide)

/-- Wherever the machine takes a character, the front goes on, unless a list begins. -/
theorem exists_moves {target : Phase × Nat}
    (hafter : f.begun.phase.after f.outer.length (.ofChar c) = some target) (hc : c ≠ '(') :
    ∃ next, f.Moves c next := by
  obtain ⟨outer, before, begun⟩ := f
  cases hspace : Text.isWhiteSpace c with
  | true =>
      cases begun with
      | nothing => exact ⟨_, .blank hspace⟩
      | mark kind =>
          rw [ofChar_eq_space_iff.2 hspace] at hafter
          cases hafter
      | bare | named | slotted | whole => exact ⟨_, .space hspace rfl⟩
  | false =>
      by_cases hwritten : Assembly.IsWritten c
      · obtain ⟨next, hwrites⟩ := Begun.exists_writes hafter hwritten
        exact ⟨_, .write hwrites⟩
      · have hmem : c ∈ ['|', '<', ',', '>', '('] := by
          by_contra hmem
          exact hwritten ⟨hspace, hmem⟩
        simp only [List.mem_cons, List.not_mem_nil, or_false] at hmem
        obtain rfl | rfl | rfl | rfl | rfl := hmem
        · obtain ⟨e, he⟩ := Begun.exists_element hafter (by decide)
          exact ⟨_, .bar he⟩
        · obtain ⟨name, optional, rfl⟩ := Begun.eq_named_of_after hafter
          exact ⟨_, .openAngle⟩
        · obtain ⟨e, he⟩ := Begun.exists_element hafter (by decide)
          rw [Begun.after_of_element he (by decide)] at hafter
          cases outer with
          | nil => cases hafter
          | cons collection outer => exact ⟨_, .comma he⟩
        · obtain ⟨e, he⟩ := Begun.exists_element hafter (by decide)
          rw [Begun.after_of_element he (by decide)] at hafter
          cases outer with
          | nil => cases hafter
          | cons collection outer => exact ⟨_, .closeAngle he⟩
        · exact absurd rfl hc

end Front

end Outline

end DynTypes
