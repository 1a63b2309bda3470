import Mathlib.Data.List.Basic
import Mathlib.Data.List.Forall2

/-!
Contract: partners between the elements of two lists.

If every element of the first list has a partner in the second, no two share
one, and the lists have one length, then every element of the second list is
somebody's partner. This is what makes a one-sided comparison of two collections
of one size a two-sided one.
-/

namespace AndroidPatch.Library

variable {B C : Type} {Partner : B → C → Prop}

theorem exists_partner {firsts : List B} {seconds : List C}
    (size : firsts.length = seconds.length)
    (unshared : firsts.Pairwise fun left right => ∀ second ∈ seconds, Partner left second →
      ¬ Partner right second)
    (partner : ∀ first ∈ firsts, ∃ second ∈ seconds, Partner first second) :
    ∀ second ∈ seconds, ∃ first ∈ firsts, Partner first second := by
  induction firsts generalizing seconds with
  | nil =>
      obtain rfl : seconds = [] := List.length_eq_zero_iff.mp size.symm
      exact fun _ member => absurd member List.not_mem_nil
  | cons head tail inductionHypothesis =>
      obtain ⟨unsharedHead, unsharedTail⟩ := List.pairwise_cons.mp unshared
      obtain ⟨taken, isTaken, isPartner⟩ := partner head List.mem_cons_self
      -- Without the head and its partner, the rest is a matching of its own.
      obtain ⟨front, back, rfl⟩ := List.append_of_mem isTaken
      have sizeTail : tail.length = (front ++ back).length := by
        simp only [List.length_cons, List.length_append] at size ⊢
        omega
      have partnerTail : ∀ first ∈ tail, ∃ second ∈ front ++ back, Partner first second := by
        intro first member
        obtain ⟨second, isSecond, isPartnerFirst⟩ := partner first (List.mem_cons_of_mem _ member)
        refine ⟨second, ?_, isPartnerFirst⟩
        rcases List.mem_append.mp isSecond with inFront | inBack
        · exact List.mem_append_left _ inFront
        · rcases List.mem_cons.mp inBack with same | later
          · rw [same] at isPartnerFirst
            exact absurd isPartnerFirst (unsharedHead first member taken isTaken isPartner)
          · exact List.mem_append_right _ later
      have unsharedRest : tail.Pairwise fun left right => ∀ second ∈ front ++ back,
          Partner left second → ¬ Partner right second := by
        refine unsharedTail.imp fun unshared second isSecond => unshared second ?_
        rcases List.mem_append.mp isSecond with inFront | inBack
        · exact List.mem_append_left _ inFront
        · exact List.mem_append_right _ (List.mem_cons_of_mem _ inBack)
      have others := inductionHypothesis sizeTail unsharedRest partnerTail
      intro second isSecond
      by_cases same : second = taken
      · exact ⟨head, List.mem_cons_self, same ▸ isPartner⟩
      · have remains : second ∈ front ++ back := by
          simpa [same] using isSecond
        obtain ⟨first, isFirst, isPartnerSecond⟩ := others second remains
        exact ⟨first, List.mem_cons_of_mem _ isFirst, isPartnerSecond⟩

/-- In a list without duplicates, two elements that are the same both ways are
one. -/
theorem eq_of_pairwise_not {elements : List B} {Same : B → B → Prop}
    (distinct : elements.Pairwise fun left right => ¬ Same left right) {left right : B}
    (isLeft : left ∈ elements) (isRight : right ∈ elements) (same : Same left right)
    (back : Same right left) : left = right := by
  induction elements with
  | nil => cases isLeft
  | cons head tail inductionHypothesis =>
      obtain ⟨distinctHead, distinctTail⟩ := List.pairwise_cons.mp distinct
      rcases List.mem_cons.mp isLeft with leftHead | leftTail
      · rcases List.mem_cons.mp isRight with rightHead | rightTail
        · rw [leftHead, rightHead]
        · rw [leftHead] at same
          exact absurd same (distinctHead right rightTail)
      · rcases List.mem_cons.mp isRight with rightHead | rightTail
        · rw [rightHead] at back
          exact absurd back (distinctHead left leftTail)
        · exact inductionHypothesis distinctTail leftTail rightTail

theorem forall₂_imp_of_mem {Other : B → C → Prop} {firsts : List B} {seconds : List C}
    (inStep : List.Forall₂ Partner firsts seconds)
    (implies : ∀ first ∈ firsts, ∀ second ∈ seconds, Partner first second →
      Other first second) : List.Forall₂ Other firsts seconds := by
  induction inStep with
  | nil => exact .nil
  | cons isPartner _ inductionHypothesis =>
      refine .cons (implies _ List.mem_cons_self _ List.mem_cons_self isPartner) ?_
      exact inductionHypothesis fun first isFirst second isSecond =>
        implies first (List.mem_cons_of_mem _ isFirst) second (List.mem_cons_of_mem _ isSecond)

/-- Two lists in step, the other way round. -/
theorem forall₂_flip_of_mem {Other : C → B → Prop} {firsts : List B} {seconds : List C}
    (inStep : List.Forall₂ Partner firsts seconds)
    (flips : ∀ first ∈ firsts, ∀ second ∈ seconds, Partner first second →
      Other second first) : List.Forall₂ Other seconds firsts := by
  exact List.Forall₂.flip (forall₂_imp_of_mem inStep flips)

/-- Three lists in step. -/
theorem forall₂_trans_of_mem {D : Type} {Next : C → D → Prop} {Whole : B → D → Prop}
    {firsts : List B} {seconds : List C} {thirds : List D}
    (early : List.Forall₂ Partner firsts seconds) (late : List.Forall₂ Next seconds thirds)
    (composes : ∀ first ∈ firsts, ∀ second ∈ seconds, ∀ third ∈ thirds,
      Partner first second → Next second third → Whole first third) :
    List.Forall₂ Whole firsts thirds := by
  induction early generalizing thirds with
  | nil =>
      cases late
      exact .nil
  | cons isPartner _ inductionHypothesis =>
      cases late with
      | cons isNext lateRest =>
          refine .cons (composes _ List.mem_cons_self _ List.mem_cons_self _
            List.mem_cons_self isPartner isNext) ?_
          exact inductionHypothesis lateRest fun first isFirst second isSecond third isThird =>
            composes first (List.mem_cons_of_mem _ isFirst) second
              (List.mem_cons_of_mem _ isSecond) third (List.mem_cons_of_mem _ isThird)

/-- Lists in step: every element of the second has a partner. -/
theorem exists_partner_of_forall₂ {firsts : List B} {seconds : List C}
    (inStep : List.Forall₂ Partner firsts seconds) :
    ∀ second ∈ seconds, ∃ first ∈ firsts, Partner first second := by
  induction inStep with
  | nil => exact fun _ member => absurd member List.not_mem_nil
  | cons isPartner _ inductionHypothesis =>
      intro second isSecond
      rcases List.mem_cons.mp isSecond with same | later
      · exact ⟨_, List.mem_cons_self, same ▸ isPartner⟩
      · obtain ⟨first, isFirst, isPartnerSecond⟩ := inductionHypothesis second later
        exact ⟨first, List.mem_cons_of_mem _ isFirst, isPartnerSecond⟩

end AndroidPatch.Library
