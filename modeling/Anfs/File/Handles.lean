import Anfs.File.Touch

/-!
# Handles

No action changes the handle of an open file, and `fh_Create` gives each file one that no
open file has, so a handle names one open file.
-/
namespace Anfs.File
open Anfs.Nfs Anfs.Buf Relation

section Actions
variable {g g' : Global} {id : Int}

/-- The handles that are open afterwards were open before. -/
structure KeepsIds (g g' : Global) : Prop where
  ids : (g'.gFH.map EFH.efhId).Sublist (g.gFH.map EFH.efhId)
  last : g'.lastId = g.lastId

theorem KeepsIds.refl (g : Global) : KeepsIds g g := ⟨List.Sublist.refl _, rfl⟩

theorem KeepsIds.trans {g'' : Global} (h : KeepsIds g g') (h' : KeepsIds g' g'') :
    KeepsIds g g'' :=
  ⟨h'.ids.trans h.ids, h'.last.trans h.last⟩

theorem storeFh_ids (efh : EFH) (fhs : List EFH) :
    (storeFh efh fhs).map EFH.efhId = fhs.map EFH.efhId := by
  induction fhs with
  | nil => rfl
  | cons e rest ih =>
      unfold storeFh
      split
      · rename_i hid
        simp [hid]
      · simp [ih]

theorem fhRemove_ids (id : Int) (fhs : List EFH) :
    ((fhRemove id fhs).map EFH.efhId).Sublist (fhs.map EFH.efhId) := by
  induction fhs with
  | nil => exact List.Sublist.refl _
  | cons e rest ih =>
      unfold fhRemove
      split
      · exact List.sublist_cons_self _ _
      · exact ih.cons_cons _

theorem KeepsIds.store (g : Global) (s : FState) : KeepsIds g (g.store s) :=
  ⟨(storeFh_ids s.efh g.gFH).symm ▸ List.Sublist.refl _, rfl⟩

theorem KeepsIds.setRes (h : KeepsIds g g') (res1 res2 : Int) :
    KeepsIds g (g'.setRes res1 res2) := ⟨h.ids, h.last⟩

theorem actREAD_ids {buf buf' : Nat → UInt8} {num : Int} {ans : ReadAnswer}
    (h : actREAD g id buf num ans = .ok (buf', g')) : KeepsIds g g' := by
  unfold actREAD at h
  split at h
  · cases h
    exact .setRes (.refl g) _ _
  · split at h
    · cases h
      exact .setRes (.store _ _) _ _
    · split at h
      · cases h
        exact .setRes (.refl g) _ _
      · obtain ⟨⟨err, s⟩, -, h⟩ := ok_of_bind h
        cases err with
        | some res2 => cases h; exact .setRes (.store _ _) _ _
        | none =>
            simp only at h
            split at h
            · cases h; exact .setRes (.store _ _) _ _
            · split at h
              · cases h; exact .setRes (.store _ _) _ _
              · obtain ⟨⟨r, buf₂, s₂⟩, -, h⟩ := ok_of_bind h
                cases r with
                | failed res2 => cases h; exact .setRes (.store _ _) _ _
                | noMem => cases h; exact .setRes (.store _ _) _ _
                | done n => cases h; exact .setRes (.store _ _) _ _

theorem actWRITE_ids {buf : Nat → UInt8} {num : Int} (h : actWRITE g id buf num = .ok g') :
    KeepsIds g g' := by
  unfold actWRITE at h
  split at h
  · cases h
    exact .setRes (.refl g) _ _
  · split at h
    · cases h
      exact .setRes (.store _ _) _ _
    · split at h
      · cases h
        exact .setRes (.refl g) _ _
      · obtain ⟨s₁, -, h⟩ := ok_of_bind h
        split at h
        · obtain ⟨⟨r, s⟩, -, h⟩ := ok_of_bind h
          cases r with
          | failed res2 => cases h; exact .setRes (.store _ _) _ _
          | noMem => cases h; exact .setRes (.store _ _) _ _
          | done n => cases h; exact .setRes (.store _ _) _ _
        · obtain ⟨⟨err, s⟩, -, h⟩ := ok_of_bind h
          cases err with
          | some res2 => cases h; exact .setRes (.store _ _) _ _
          | none => cases h; exact .setRes (.store _ _) _ _

theorem actSEEK_ids (g : Global) (id offset mode : Int) :
    KeepsIds g (actSEEK g id offset mode) := by
  unfold actSEEK
  split
  · exact .setRes (.refl g) _ _
  · simp only
    split
    · exact .setRes (.store _ _) _ _
    · exact .setRes (.refl g) _ _

theorem doSetSize_ids (g : Global) (s : FState) (offset mode : Int) (ans : SizeAnswer) :
    KeepsIds g (doSetSize g s offset mode ans) := by
  unfold doSetSize
  simp only
  split
  · exact .setRes (.store _ _) _ _
  · split
    · exact .setRes (.store _ _) _ _
    · cases ans with
      | failed res2 => exact .setRes (.store _ _) _ _
      | done size => exact ⟨(KeepsIds.store g _).ids, rfl⟩

theorem actSETFILESIZE_ids {offset mode : Int} {numLocks : Nat} {ans : SizeAnswer}
    (h : actSETFILESIZE g id offset mode numLocks ans = .ok g') : KeepsIds g g' := by
  unfold actSETFILESIZE at h
  split at h
  · cases h
    exact .setRes (.refl g) _ _
  · obtain ⟨⟨err, s⟩, -, h⟩ := ok_of_bind h
    cases err with
    | some res2 =>
        cases h
        exact (KeepsIds.setRes (.refl g) (-1) res2).trans (doSetSize_ids _ s offset mode ans)
    | none =>
        simp only at h
        split at h
        · cases h
          exact .setRes (.store _ _) _ _
        · cases h
          exact doSetSize_ids g s offset mode ans

theorem actEND_ids (h : actEND g id = .ok g') : KeepsIds g g' := by
  unfold actEND at h
  split at h
  · cases h
    exact .setRes (.refl g) _ _
  · obtain ⟨⟨err, s⟩, -, h⟩ := ok_of_bind h
    obtain ⟨s₁, -, h⟩ := ok_of_bind h
    cases h
    cases err with
    | none =>
        simp only
        split
        · exact ⟨fhRemove_ids id _, rfl⟩
        · exact ⟨fhRemove_ids id _, rfl⟩
    | some res2 =>
        simp only
        split
        · exact ⟨fhRemove_ids id _, rfl⟩
        · exact ⟨fhRemove_ids id _, rfl⟩

theorem flushEach_ids {fhs fhs' : List EFH} {p p' : Pool} {srv srv' : Server}
    {res res' : Int × Int} (h : flushEach fhs p srv res = .ok (fhs', p', srv', res')) :
    fhs'.map EFH.efhId = fhs.map EFH.efhId := by
  induction fhs generalizing p srv res fhs' with
  | nil => cases h; rfl
  | cons efh rest ih =>
      unfold flushEach at h
      obtain ⟨⟨err, s⟩, hflush, h⟩ := ok_of_bind h
      have hid : s.efh.efhId = efh.efhId := (flushBuffered_dropped hflush).2.1.id
      obtain ⟨⟨rest', p₁, srv₁, res₁⟩, hrest, h⟩ := ok_of_bind h
      cases h
      have hmap : rest'.map EFH.efhId = rest.map EFH.efhId := ih hrest
      cases err with
      | none => simp only [List.map_cons, hid, hmap]
      | some res2 => simp only [List.map_cons, hid, hmap]

theorem flushAll_ids (h : flushAll g = .ok g') : KeepsIds g g' := by
  unfold flushAll at h
  obtain ⟨⟨fhs, p, srv, res⟩, heach, h⟩ := ok_of_bind h
  cases h
  exact ⟨(flushEach_ids heach).symm ▸ List.Sublist.refl _, rfl⟩

theorem actFLUSH_ids (h : actFLUSH g = .ok g') : KeepsIds g g' := by
  unfold actFLUSH at h
  obtain ⟨g₁, hall, h⟩ := ok_of_bind h
  have hids := flushAll_ids hall
  cases h
  exact ⟨hids.ids, hids.last⟩

theorem whenShort_ids {mbufs : Int} {f : Global → Except Fault Global}
    (hf : ∀ g', f g = .ok g' → KeepsIds g g') (h : whenShort mbufs f g = .ok g') :
    KeepsIds g g' := by
  unfold whenShort at h
  split at h
  · exact hf g' h
  · cases h; exact .refl g

theorem resizeMBufs_ids {mbufs : Int} {avail : Nat} {ok : Bool}
    (h : resizeMBufs g mbufs avail = .ok (ok, g')) : KeepsIds g g' := by
  unfold resizeMBufs at h
  simp only at h
  split at h
  · obtain ⟨g₂, hshrink, h⟩ := ok_of_bind h
    cases h
    unfold shrinkMBufs gatherMBufs at hshrink
    obtain ⟨g₃, hgather, hshrink⟩ := ok_of_bind hshrink
    obtain ⟨g₄, hfirst, hgather⟩ := ok_of_bind hgather
    obtain ⟨p, -, hshrink⟩ := ok_of_bind hshrink
    cases hshrink
    have hids : KeepsIds g g₄ := whenShort_ids (fun _ => actFLUSH_ids) hfirst
    have hnext : KeepsIds g₄ g₃ := whenShort_ids (fun _ => flushAll_ids) hgather
    exact ⟨(hids.trans hnext).ids, (hids.trans hnext).last⟩
  · split at h
    · obtain ⟨⟨ok', p⟩, -, h⟩ := ok_of_bind h
      cases h
      exact ⟨List.Sublist.refl _, rfl⟩
    · cases h
      exact .refl g

theorem actMORECACHE_ids {num : Int} {avail : Nat} (h : actMORECACHE g num avail = .ok g') :
    KeepsIds g g' := by
  unfold actMORECACHE at h
  split at h
  · cases h; exact .setRes (.refl g) _ _
  · obtain ⟨⟨ok, g₁⟩, hresize, h⟩ := ok_of_bind h
    have hone := resizeMBufs_ids hresize
    cases ok with
    | true => cases h; exact ⟨hone.ids, hone.last⟩
    | false => cases h; exact .setRes hone _ _

/-- The handles of the open files differ, and the next one is new. -/
structure OwnIds (g : Global) : Prop where
  nodup : (g.gFH.map EFH.efhId).Nodup
  last : ∀ efh ∈ g.gFH, efh.efhId ≤ g.lastId

theorem KeepsIds.ownIds (hids : KeepsIds g g') (h : OwnIds g) : OwnIds g' := by
  refine ⟨h.nodup.sublist hids.ids, fun efh hmem => ?_⟩
  rw [hids.last]
  have hid : efh.efhId ∈ g.gFH.map EFH.efhId :=
    hids.ids.subset (List.mem_map.mpr ⟨efh, hmem, rfl⟩)
  obtain ⟨e, he, heq⟩ := List.mem_map.mp hid
  rw [← heq]
  exact h.last e he

theorem openFile_ownIds (h : OwnIds g) (mode fileLen : Int) (fh : Fh) (key : Int)
    (wbuf rbuf : Bool) : OwnIds (openFile g mode fileLen fh key wbuf rbuf) := by
  refine ⟨?_, fun efh hmem => ?_⟩
  · refine List.nodup_cons.mpr ⟨fun hmem => ?_, h.nodup⟩
    obtain ⟨e, he, heq⟩ := List.mem_map.mp hmem
    have hle := h.last e he
    simp only at heq
    omega
  · simp only [openFile] at hmem ⊢
    rcases List.mem_cons.mp hmem with rfl | hmem
    · exact Int.le_refl _
    · have hle := h.last efh hmem
      omega

theorem step_ownIds {a : Action} (h : OwnIds g) (hstep : step g a = .ok g') : OwnIds g' := by
  cases a with
  | openFile mode fileLen fh key wbuf rbuf => cases hstep; exact openFile_ownIds h ..
  | read id buf num ans =>
      obtain ⟨⟨buf', g₁⟩, hread, hstep⟩ := ok_of_bind hstep
      cases hstep
      exact (actREAD_ids hread).ownIds h
  | write id buf num => exact (actWRITE_ids hstep).ownIds h
  | seek id offset mode => cases hstep; exact (actSEEK_ids ..).ownIds h
  | setFileSize id offset mode numLocks ans => exact (actSETFILESIZE_ids hstep).ownIds h
  | flush => exact (actFLUSH_ids hstep).ownIds h
  | timer => exact (actFLUSH_ids hstep).ownIds h
  | updateAuth ok =>
      obtain ⟨g₁, hflush, hstep⟩ := ok_of_bind hstep
      have hids := actFLUSH_ids hflush
      cases hstep
      cases ok with
      | true => exact hids.ownIds h
      | false => exact (hids.setRes _ _).ownIds h
  | moreCache num avail => exact (actMORECACHE_ids hstep).ownIds h
  | endFile id => exact (actEND_ids hstep).ownIds h

theorem fhLookup_of_mem {efh : EFH} (h : OwnIds g) (hmem : efh ∈ g.gFH) :
    fhLookup g.gFH efh.efhId = some efh := by
  obtain ⟨pre, post, hg⟩ := List.append_of_mem hmem
  have hnd := h.nodup
  rw [hg] at hnd ⊢
  unfold fhLookup
  refine List.find?_eq_some_iff_append.mpr ⟨by simp, pre, post, rfl, fun e he => ?_⟩
  simp only [List.map_append, List.map_cons, List.nodup_append, List.mem_map, List.mem_cons] at hnd
  simpa using hnd.2.2 e.efhId ⟨e, he, rfl⟩ efh.efhId (.inl rfl)

end Actions

/-- The open file with handle `id` has data to write. -/
def BufferedAt (fhs : List EFH) (id : Int) : Prop :=
  ∃ efh ∈ fhs, efh.efhId = id ∧ hasBufferedWData efh = true

instance (fhs : List EFH) (id : Int) : Decidable (BufferedAt fhs id) := by
  unfold BufferedAt; infer_instance

section Buffered
variable {g g' : Global} {W : FState → (Nat → UInt8) → Int → Prop} {id : Int} {efh efh' : EFH}
  {fhs pre post : List EFH}

theorem BufferedAt.replace (h : BufferedAt (pre ++ efh' :: post) id)
    (hself : hasBufferedWData efh' = true → efh'.efhId = efh.efhId ∧ hasBufferedWData efh = true) :
    BufferedAt (pre ++ efh :: post) id := by
  obtain ⟨e, hmem, hid, hbuf⟩ := h
  simp only [List.mem_append, List.mem_cons] at hmem
  rcases hmem with hmem | rfl | hmem
  · exact ⟨e, by simp [hmem], hid, hbuf⟩
  · obtain ⟨hsame, hbuf'⟩ := hself hbuf
    exact ⟨efh, by simp, hsame.symm.trans hid, hbuf'⟩
  · exact ⟨e, by simp [hmem], hid, hbuf⟩

theorem hasBufferedWData_congr (h : efh'.efhWBuf = efh.efhWBuf) :
    hasBufferedWData efh' = hasBufferedWData efh := by
  unfold hasBufferedWData
  rw [h]

/-- Data gets into a cache by a cached write to its file only. -/
theorem Touch.buffered {m : Int} {x y : Pool × List EFH} (ht : Touch W m x y)
    (h : BufferedAt y.2 id) :
    BufferedAt x.2 id ∨ ∃ s buf num, W s buf num ∧ s.efh.efhId = id := by
  cases ht with
  | @flush pre post s s' err run =>
      obtain ⟨-, -, hleft, -⟩ := flushBuffered_dropped run
      exact .inl (h.replace fun hbuf => by rw [hleft] at hbuf; cases hbuf)
  | @write pre post s s' buf num r ok pos run =>
      have hsid := (wcWriteCache_dropped run).same.id
      by_cases hid : s.efh.efhId = id
      · exact .inr ⟨s, buf, num, ok, hid⟩
      · obtain ⟨e, hmem, heid, hbuf⟩ := h
        simp only [List.mem_append, List.mem_cons] at hmem
        rcases hmem with hmem | rfl | hmem
        · exact .inl ⟨e, by simp [hmem], heid, hbuf⟩
        · exact absurd (hsid.symm.trans heid) hid
        · exact .inl ⟨e, by simp [hmem], heid, hbuf⟩
  | @rbuf pre post s s' moved =>
      exact .inl (h.replace fun hbuf =>
        ⟨moved.id, (hasBufferedWData_congr moved.wbuf).symm.trans hbuf⟩)
  | @fields g pre post efh efh' hid wbuf rbuf =>
      exact .inl (h.replace fun hbuf => ⟨hid, (hasBufferedWData_congr wbuf).symm.trans hbuf⟩)
  | @opened g fhs efh wbuf rbuf =>
      obtain ⟨e, hmem, heid, hbuf⟩ := h
      rcases List.mem_cons.mp hmem with rfl | hmem
      · unfold hasBufferedWData at hbuf
        cases hw : e.efhWBuf with
        | none => rw [hw] at hbuf; cases hbuf
        | some wbc => rw [hw, wbuf wbc hw] at hbuf; cases hbuf
      · exact .inl ⟨e, hmem, heid, hbuf⟩
  | @closed g pre post efh wbuf rbuf =>
      obtain ⟨e, hmem, heid, hbuf⟩ := h
      refine .inl ⟨e, ?_, heid, hbuf⟩
      simp only [List.mem_append, List.mem_cons] at hmem ⊢
      tauto
  | freed pos run => exact .inl h
  | alloced pos run => exact .inl h

theorem step_buffered {a : Action} (hstep : step g a = .ok g') (h : BufferedAt g'.gFH id) :
    BufferedAt g.gFH id ∨ ∃ buf num, a = .write id buf num := by
  have hcall : ∀ x ∈ writeCall g a, ∃ buf num, a = .write x.1.efh.efhId buf num := by
    intro x hx
    cases a with
    | write i buf num =>
        simp only [writeCall] at hx
        cases hlook : fhLookup g.gFH i with
        | none => rw [hlook] at hx; cases hx
        | some efh =>
            rw [hlook] at hx
            simp only at hx
            split at hx
            · cases hx
            · cases hrel : releaseBuffered (g.state efh) with
              | error f => rw [hrel] at hx; cases hx
              | ok s =>
                  rw [hrel] at hx
                  cases hx
                  have hid : s.efh.efhId = i :=
                    (releaseBuffered_moved hrel).1.id.trans (fhLookup_split hlook).1
                  exact ⟨buf, num, by rw [hid]⟩
    | openFile mode fileLen fh key wbuf rbuf => cases hx
    | read id buf num ans => cases hx
    | seek id offset mode => cases hx
    | setFileSize id offset mode numLocks ans => cases hx
    | flush => cases hx
    | timer => cases hx
    | updateAuth ok => cases hx
    | moreCache num avail => cases hx
    | endFile id => cases hx
  have hto := step_touches (W := fun s _ _ => ∃ buf num, a = .write s.efh.efhId buf num) hcall hstep
  have hall : ∀ {y : Pool × List EFH},
      ReflTransGen (Touch (fun s _ _ => ∃ buf num, a = .write s.efh.efhId buf num) g.bufsPerFile)
        g.files y →
        BufferedAt y.2 id → BufferedAt g.gFH id ∨ ∃ buf num, a = .write id buf num := by
    intro y hy
    induction hy with
    | refl => exact .inl
    | tail _ htouch ih =>
        intro hbuf
        rcases htouch.buffered hbuf with hbefore | ⟨s, -, -, ⟨buf, num, ha⟩, rfl⟩
        · exact ih hbefore
        · exact .inr ⟨buf, num, ha⟩
  exact hall hto.files h

end Buffered

end Anfs.File
