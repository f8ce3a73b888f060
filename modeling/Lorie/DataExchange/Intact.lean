import Lorie.DataExchange.Receiving

/-!
# Selections arrive intact

- `content_transfer`: what a sender writes for a file, what a receiver delivers, and that the one read by the other is the
  file that was sent;
- `deadline_truncates`: a transfer that fails ends with an empty value, and looks complete.
-/

namespace Lorie.DataExchange

open Lorie.Lib State

/-- **Selections arrive intact.** What a sender writes for a file is a part of it, and in a smooth run, which a client that
reads and deletes each value can bring to its end, the whole of it; what a receiver delivers is what its owner wrote, up to
the limit; and what a sender wrote as a whole is what a receiver delivers. -/
theorem content_transfer {content : List UInt8} {s : Sending} {r : Receiving} (hmax : content.length ≤ maxBytes)
    (hs : s.Replied Free content) (hr : r.Runs Free) :
    (Part content s.flow.transfer.target s.flow.values ∧
      (s.Replied Sending.Smoothly content →
        (s.flow.property = none → s.flow.transfer.queued = false →
          s.flow.transfer.used = false ∧ Whole content s.flow.transfer.target s.flow.values ∧ s.got = s.flow.values) ∧
        (s.flow.transfer.requestor.any Window.clientOwned = true → ∃ t, Reach Sending.step Sending.Smoothly s t ∧
          t.flow.property = none ∧ t.flow.transfer.queued = false))) ∧
    (r.flow.transfer.size ≤ maxBytes ∧
      (∀ file, .reply (some file) ∈ r.flow.out →
        r.phase = .finished ∧ file = bytes r.flow.values ∧ ¬Exceeds r.flow.values) ∧
      (r.Runs Receiving.Smoothly → r.flow.transfer.queued = false →
        (r.phase = .finished → ¬Exceeds r.flow.values → r.flow.out = [.reply (some (bytes r.flow.values))]) ∧
        (r.phase ≠ .direct → r.phase ≠ .announced → Exceeds r.flow.values → r.flow.out = [.reply none]))) ∧
    (Whole content s.flow.transfer.target s.flow.values → r.flow.values = s.flow.values →
      ∀ file, .reply (some file) ∈ r.flow.out → file = content) := by
  refine ⟨⟨?_, fun hsmooth => ⟨fun hp hq => ?_, fun hclient => ?_⟩⟩, ⟨hr.limit, fun file => hr.delivered,
    fun hsmooth => hsmooth.outcome⟩, fun hwhole hsame file ho => ?_⟩
  · rcases hs.cases (fun _ _ _ (hf : False) => hf.elim) hmax with hm | ho
    · rw [← List.append_nil s.flow.values]
      exact hm.part (.inl rfl)
    · exact ho.part
  · rcases hsmooth.cases (fun _ _ hb (_ : True) => hb) hmax with hm | ho
    · rw [(hm.calm trivial).2.1.2 hp] at hq
      cases hq
    · obtain ⟨hwhole, hgot, -, -⟩ := ho.calm trivial
      refine ⟨ho.used, hwhole, ?_⟩
      rw [hp] at hgot
      simpa using hgot
  · rcases hsmooth.cases (fun _ _ hb (_ : True) => hb) hmax with hm | ho
    · exact hm.ends hclient
    · exact ho.ends hclient
  · rw [(hr.delivered ho).2.1, hsame]
    exact hwhole.bytes

/-- A client asked for a selection. -/
def conversion : Sending := ⟨{ transfer := { used := true, requestor := some (.client 1 1) }, generation := 0 }, []⟩

/-- The host asked for a selection. -/
def reading : Receiving :=
  { flow := { transfer := { used := true, incoming := true, requestor := some (.server 1) }, generation := 0 } }

theorem starts_conversion : conversion.Starts := ⟨rfl, rfl, rfl, rfl, rfl, rfl, rfl, rfl, rfl⟩

/-- A small file goes to a client, and an owner sends the same bytes by increments, two of them before they are read. -/
def increments : List Receiving.Action :=
  [.announce 3, .notify {}, .append (.other 3) [1] {}, .append (.other 3) [2] {}, .work {}, .append (.other 3) [3] {}, .work {},
    .finish (.other 3) {}, .work {}]

theorem content_transfer_small :
    ∃ (s : Sending) (r : Receiving), Part [1, 2, 3] s.flow.transfer.target s.flow.values ∧
      r.flow.out = [.reply (some (bytes r.flow.values))] ∧ bytes r.flow.values = [1, 2, 3] := by
  have hsent : (Sending.step conversion (.reply (some [1, 2, 3]) {})).isSome = true := by decide +kernel
  have hread : (exec Receiving.step reading increments).map
      (fun r => (r.phase, r.flow.transfer.queued, r.flow.values.length, bytes r.flow.values)) =
        some (.finished, false, 5, [1, 2, 3]) := by decide +kernel
  obtain ⟨s, hs⟩ := Option.isSome_iff_exists.1 hsent
  obtain ⟨r, hr, hfacts⟩ := Option.map_eq_some_iff.1 hread
  simp only [Prod.mk.injEq] at hfacts
  obtain ⟨hphase, hq, hlength, hbytes⟩ := hfacts
  have hsmooth : r.Runs Receiving.Smoothly := by
    have hall : ∀ b ∈ increments, b.Smooth := by simp [increments, Receiving.Action.Smooth, Answers.Succeed]
    exact ⟨reading, ⟨rfl, rfl, rfl, rfl, rfl, rfl, rfl, rfl, rfl, rfl, ⟨rfl, rfl⟩, rfl, rfl, rfl⟩,
      .of_exec_all (fun b hb _ => hall b hb) hr⟩
  have hfree : r.Runs Free := by
    obtain ⟨r₀, hstart, hrun⟩ := hsmooth
    exact ⟨r₀, hstart, hrun.mono fun _ _ _ => trivial⟩
  have hfits : ¬Exceeds r.flow.values := by
    rintro (⟨n, -, heq, -⟩ | hlt)
    · rw [heq] at hlength
      cases hlength
    · rw [hbytes] at hlt
      exact absurd hlt (by decide)
  have hboth := content_transfer (by decide) ⟨conversion, conversion, s, {}, starts_conversion, .refl, trivial, hs, .refl⟩ hfree
  exact ⟨s, r, hboth.1.1, (hboth.2.1.2.2 hsmooth hq).1 hphase hfits, hbytes⟩

/-- The deadline passes when a client read the announcement: it reads an empty value, and nothing came of the file. -/
theorem deadline_truncates :
    ∃ (content : List UInt8) (s : Sending), content.length ≤ maxBytes ∧ s.Replied Free content ∧
      s.flow.transfer.used = false ∧ s.flow.property = none ∧ s.got = s.flow.values ∧ bytes s.flow.values ≠ content := by
  obtain ⟨content, hlength⟩ : ∃ content : List UInt8, content.length = chunkSize + 1 :=
    ⟨List.replicate (chunkSize + 1) 0, List.length_replicate⟩
  have hmax : content.length ≤ maxBytes := by rw [hlength]; decide
  -- the announcement
  obtain ⟨s, hs, hflow⟩ : ∃ s, Sending.step conversion (.reply (some content) {}) = some s ∧ s =
      ⟨{ transfer := { used := true, incremental := true, fd := some 0, size := content.length,
                       requestor := some (.client 1 1) }
         generation := 0, property := some (.announcement content.length), file := content, created := 1
         values := [.announcement content.length], out := [.notify true] }, []⟩ := by
    have hreply : conversion.flow.reply (some content) {} = (conversion.flow.takeFile content).startIncremental {} := by
      have hsize : (conversion.flow.takeFile content).transfer.size = content.length := rfl
      rw [Flow.reply, if_neg (by omega), Flow.deliver, hsize, if_neg nofun, if_pos (by omega)]
    refine ⟨{ conversion with flow := conversion.flow.reply (some content) {} }, rfl, ?_⟩
    rw [hreply]
    rfl
  have hrun : exec Sending.step s [.read {}, .suffer (.failed {}), .read {}] = some
      ⟨{ transfer := { used := false, incremental := true, queued := true, fd := none, size := content.length,
                       requestor := some (.client 1 1) }
         generation := 0, property := none, file := content, created := 1
         values := [.announcement content.length, .piece (.other 0) []], out := [.notify true] },
       [.announcement content.length, .piece (.other 0) []]⟩ := by
    rw [hflow]
    rfl
  refine ⟨content, _, hmax, ⟨conversion, conversion, s, {}, starts_conversion, .refl, trivial, hs, .of_exec _ hrun⟩, rfl, rfl,
    rfl, fun heq => ?_⟩
  have hnone : content = [] := heq.symm
  rw [hnone] at hlength
  cases hlength

end Lorie.DataExchange
