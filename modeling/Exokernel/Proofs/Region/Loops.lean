import Exokernel.Proofs.Request
import Exokernel.Region.Allocate
import Exokernel.Region.Copy
import Exokernel.Region.Device
import Exokernel.Region.UserBytes

/-! # From one page to a range

What the request on one page keeps, the request on a range keeps. -/

namespace Exokernel.Space

variable {I : Space → Prop}

theorem keeps_populateAll {pages : List VirtPage} (h : ∀ p ∈ pages, Keeps I (populate p)) :
    Keeps I (populateAll pages) := by
  induction pages with
  | nil => exact Keeps.pure ()
  | cons p rest ih =>
      apply (h p List.mem_cons_self).bind
      intro _
      exact ih fun q hq => h q (List.mem_cons_of_mem _ hq)

theorem keeps_allocatePages {req : AllocRequest} {pages : List VirtPage}
    (h : ∀ p ∈ pages, Keeps I (allocatePage req p)) : Keeps I (allocatePages req pages) := by
  induction pages with
  | nil => exact Keeps.pure ()
  | cons p rest ih =>
      apply (h p List.mem_cons_self).bind
      intro _
      exact ih fun q hq => h q (List.mem_cons_of_mem _ hq)

theorem keeps_allocateRegion {r : PageRange} {req : AllocRequest}
    (hpage : ∀ p ∈ r.toList, Keeps I (allocatePage req p))
    (hnote : ∀ s level target text, I s → I (s.note level target text)) :
    Keeps I (allocateRegion r req) := by
  apply Keeps.get_bind
  intro s hs
  split
  · apply (keeps_allocatePages hpage).bind
    intro _
    exact Keeps.update fun t ht => hnote t _ _ _ ht
  · exact Keeps.throw _

theorem keeps_sharePages {rights : MapRights} {pages : List (VirtPage × Backing)}
    (h : ∀ x ∈ pages, Keeps I (sharePage rights x.1 x.2)) : Keeps I (sharePages rights pages) := by
  induction pages with
  | nil => exact Keeps.pure ()
  | cons x rest ih =>
      apply (h x List.mem_cons_self).bind
      intro _
      exact ih fun y hy => h y (List.mem_cons_of_mem _ hy)

theorem keeps_devicePages {flags : PageFlags} {pages : List VirtPage}
    (h : ∀ p ∈ pages, ∀ pa, Keeps I (place p ⟨.device pa, flags⟩)) (pa : PhysAddr) :
    Keeps I (devicePages flags pa pages) := by
  induction pages generalizing pa with
  | nil => exact Keeps.pure ()
  | cons p rest ih =>
      apply (h p List.mem_cons_self pa).bind
      intro _
      exact ih (fun q hq => h q (List.mem_cons_of_mem _ hq)) (pa.advance 1)

theorem keeps_mapDeviceRegion {r : PageRange} {rights : MapRights}
    (h : ∀ p ∈ r.toList, ∀ pa, Keeps I (place p ⟨.device pa, rights.flags⟩)) (pa : PhysAddr) :
    Keeps I (mapDeviceRegion r pa rights) := by
  apply Keeps.get_bind
  intro s hs
  split
  · exact Keeps.pure ()
  · split
    · exact Keeps.throw _
    · exact keeps_devicePages h pa

theorem keeps_foldl_unmapPage (h : ∀ s p, I s → I (s.unmapPage p)) {pages : List VirtPage}
    {s : Space} (hs : I s) : I (pages.foldl unmapPage s) := by
  induction pages generalizing s with
  | nil => exact hs
  | cons p rest ih => exact ih (h s p hs)

theorem keeps_resolveFault {p : VirtPage} (h : Keeps I (populate p)) (write : Bool) :
    Keeps I (resolveFault p write) := by
  intro s hs
  simp only [resolveFault]
  split
  · split
    · exact h s hs
    · exact hs
  · exact hs

/-! ## Copies -/

/-- A copy is refused at once; or it stops among the source pages that have no frame yet; or it goes
on to the target pages, and gets through or stops among them. -/
theorem stateOf_copyWithin {src dst : PageRange} {rights : MapRights} {s : Space} (hstart : I s)
    (hpopulate : copyFault? s.memory s.table s.table src dst rights = none →
      I (stateOf (populateAll src.toList s)))
    (hshare : ∀ s₁, populateAll src.toList s = .ok () s₁ →
      copyFault? s.memory s.table s.table src dst rights = none →
        I (stateOf (sharePages rights (dst.toList.zip (backings s₁.table src.toList)) s₁)))
    (hnote : ∀ u text, I u → I (u.note .trace "mm" text)) :
    I (stateOf (copyWithin src dst rights s)) := by
  rw [copyWithin]
  rw [bind_of_ok (x := get) (a := s) (t := s) rfl]
  cases hfault : copyFault? s.memory s.table s.table src dst rights with
  | some e => exact hstart
  | none =>
      have hstop := hpopulate hfault
      simp only
      cases hloop : populateAll src.toList s with
      | error e s₁ =>
          rw [hloop] at hstop
          rw [bind_of_error hloop]
          exact hstop
      | ok _ s₁ =>
          rw [bind_of_ok hloop, bind_of_ok (x := get) (a := s₁) (t := s₁) rfl]
          exact stateOf_bind (hshare s₁ hloop hfault) fun _ u hu => hnote u _ hu

/-! ## Bytes -/

theorem keeps_readSpan (h : ∀ p, Keeps I (populate p)) (span : Span) :
    Keeps I (readSpan span) := by
  apply (h span.page).bind
  intro pa
  apply Keeps.get_bind
  intro s hs
  split
  · exact Keeps.pure _
  · exact Keeps.throw _

theorem keeps_readSpans (h : ∀ p, Keeps I (populate p)) (done : List (List UInt8))
    (spans : List Span) : Keeps I (readSpans done spans) := by
  induction spans generalizing done with
  | nil => exact Keeps.pure _
  | cons span rest ih =>
      apply (keeps_readSpan h span).bind
      intro bytes
      exact ih (bytes :: done)

theorem keeps_readBytes (h : ∀ p, Keeps I (populate p)) (start length : Nat) :
    Keeps I (readBytes start length) := by
  apply Keeps.get_bind
  intro s hs
  split
  · exact Keeps.throw _
  · split
    · exact keeps_readSpans h [] _
    · exact Keeps.throw _

def updateBytes (s : Space) (pa : PhysAddr) (f : Frame → Frame) : Space :=
  { s with memory := { s.memory with machine := s.memory.machine.update pa f } }

theorem keeps_writeSpan (h : ∀ p, Keeps I (populate p))
    (hbytes : ∀ s pa f, I s → I (s.updateBytes pa f)) (span : Span) (bytes : List UInt8) :
    Keeps I (writeSpan span bytes) := by
  apply (h span.page).bind
  intro pa
  apply Keeps.get_bind
  intro s hs
  split
  · exact Keeps.update fun t ht => hbytes t pa _ ht
  · exact Keeps.throw _

theorem keeps_writeSpans (h : ∀ p, Keeps I (populate p))
    (hbytes : ∀ s pa f, I s → I (s.updateBytes pa f)) (spans : List Span) (bytes : List UInt8) :
    Keeps I (writeSpans spans bytes) := by
  induction spans generalizing bytes with
  | nil => exact Keeps.pure _
  | cons span rest ih =>
      apply (keeps_writeSpan h hbytes span _).bind
      intro _
      exact ih _

theorem keeps_writeBytes (h : ∀ p, Keeps I (populate p))
    (hbytes : ∀ s pa f, I s → I (s.updateBytes pa f)) (start : Nat) (bytes : List UInt8) :
    Keeps I (writeBytes start bytes) := by
  apply Keeps.get_bind
  intro s hs
  split
  · exact Keeps.throw _
  · split
    · exact keeps_writeSpans h hbytes _ _
    · exact Keeps.throw _

end Exokernel.Space

/-! ## Two spaces -/

namespace Exokernel.SpacePair

theorem stateOf_onSource {α : Type} (x : SpaceM α) (s : SpacePair) :
    stateOf (onSource x s) =
      ⟨(stateOf (x ⟨s.memory, s.source⟩)).memory, (stateOf (x ⟨s.memory, s.source⟩)).table,
        s.target⟩ := by
  obtain ⟨memory, source, target⟩ := s
  simp only [onSource]
  cases x ⟨memory, source⟩ <;> rfl

theorem stateOf_onTarget {α : Type} (x : SpaceM α) (s : SpacePair) :
    stateOf (onTarget x s) =
      ⟨(stateOf (x ⟨s.memory, s.target⟩)).memory, s.source,
        (stateOf (x ⟨s.memory, s.target⟩)).table⟩ := by
  obtain ⟨memory, source, target⟩ := s
  simp only [onTarget]
  cases x ⟨memory, target⟩ <;> rfl

theorem stateOf_copyAcross {I : SpacePair → Prop} {src dst : PageRange} {rights : MapRights}
    {s : SpacePair} (hstart : I s)
    (hpopulate : Space.copyFault? s.memory s.source s.target src dst rights = none →
      ∀ u, stateOf (Space.populateAll src.toList ⟨s.memory, s.source⟩) = u →
        I ⟨u.memory, u.table, s.target⟩)
    (hshare : ∀ s₁, Space.populateAll src.toList ⟨s.memory, s.source⟩ = .ok () s₁ →
      Space.copyFault? s.memory s.source s.target src dst rights = none → ∀ u,
        stateOf (Space.sharePages rights (dst.toList.zip (Space.backings s₁.table src.toList))
          ⟨s₁.memory, s.target⟩) = u → I ⟨u.memory, s₁.table, u.table⟩)
    (hnote : ∀ u text, I u → I { u with memory := u.memory.note .trace "mm" text }) :
    I (stateOf (copyAcross src dst rights s)) := by
  obtain ⟨memory, source, target⟩ := s
  rw [copyAcross]
  rw [bind_of_ok (x := get) (a := ⟨memory, source, target⟩) (t := ⟨memory, source, target⟩) rfl]
  cases hfault : Space.copyFault? memory source target src dst rights with
  | some e => exact hstart
  | none =>
      have hstop := hpopulate hfault _ rfl
      simp only
      cases hloop : Space.populateAll src.toList ⟨memory, source⟩ with
      | error e s₁ =>
          have hsource : onSource (Space.populateAll src.toList) ⟨memory, source, target⟩ =
              .error e ⟨s₁.memory, s₁.table, target⟩ := by
            rw [onSource, hloop]
          rw [hloop] at hstop
          rw [bind_of_error hsource]
          exact hstop
      | ok _ s₁ =>
          have hsource : onSource (Space.populateAll src.toList) ⟨memory, source, target⟩ =
              .ok () ⟨s₁.memory, s₁.table, target⟩ := by
            rw [onSource, hloop]
          rw [bind_of_ok hsource, bind_of_ok (x := get) rfl]
          apply stateOf_bind
          · rw [stateOf_onTarget]
            exact hshare s₁ hloop hfault _ rfl
          · exact fun _ u hu => hnote u _ hu

end Exokernel.SpacePair
