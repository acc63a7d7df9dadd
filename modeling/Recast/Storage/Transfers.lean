import Recast.Storage.File

/-!
# The loops around `pread` and `pwrite`

A system call can be interrupted, move fewer bytes than asked for, or fail. The loops
of `pread_exact` and `pwrite_exact` go on until all bytes are moved. When they return
they have done the transfer as a whole, and a write that throws has written a prefix.
-/

namespace Recast

open Foundation

/-- How the kernel answers one call: with `EINTR`, with another error, or with the bytes it
can move, at most so many. -/
inductive Answer where
  | interrupted
  | failed
  | upTo (most : Nat)
  deriving DecidableEq, Repr

/-- The loop of `pread_exact`, after the bytes in `buffer`. A call moves nothing at the end of
the file only. The result is `none` while the loop waits for an answer. -/
def preadLoop (file : Bytes) (bytes offset : Nat) : List Answer → Bytes → Option (Except Error Bytes)
  | [], buffer => if bytes ≤ buffer.length then some (.ok buffer) else none
  | answer :: answers, buffer =>
      if bytes ≤ buffer.length then some (.ok buffer) else
      match answer with
      | .interrupted => preadLoop file bytes offset answers buffer
      | .failed => some (.error (.system "pread"))
      | .upTo most =>
          let moved := slice file (offset + buffer.length) (min (max most 1) (bytes - buffer.length))
          if moved = [] then some (.error (.runtime "unexpected end of external file"))
          else preadLoop file bytes offset answers (buffer ++ moved)

/-- The loop of `pwrite_exact`, with `completed` bytes of the buffer in the file. A call moves
what the file has room for, and fails when there is none. -/
def pwriteLoop (buffer : Bytes) (offset : Nat) :
    List Answer → Nat → Bytes → Bytes × Option (Except Error Unit)
  | [], completed, file => (file, if buffer.length ≤ completed then some (.ok ()) else none)
  | answer :: answers, completed, file =>
      if buffer.length ≤ completed then (file, some (.ok ())) else
      match answer with
      | .interrupted => pwriteLoop buffer offset answers completed file
      | .failed => (file, some (.error (.system "pwrite")))
      | .upTo most =>
          let room := offMax - (offset + completed)
          let moved := min (min most (buffer.length - completed)) room
          if room = 0 then (file, some (.error (.system "pwrite")))
          else if moved = 0 then (file, some (.error (.runtime "pwrite made no progress")))
          else pwriteLoop buffer offset answers (completed + moved)
            (overwrite 0 file (offset + completed) (slice buffer completed moved))

/-- The file with the first `completed` bytes of the buffer written. -/
def torn (file buffer : Bytes) (offset completed : Nat) : Bytes :=
  if completed = 0 then file else overwrite 0 file offset (buffer.take completed)

/-- The answers that let a loop go on. -/
def served (answers : List Answer) : Nat := answers.countP (· ≠ .interrupted)

section Read

variable {file : Bytes} {bytes offset : Nat}

/-- One more answer that moves bytes: they continue the buffer, or the file has ended. -/
theorem slice_moved {buffer : Bytes} (hbuffer : buffer = slice file offset buffer.length)
    (most : Nat) :
    buffer ++ slice file (offset + buffer.length) most =
      slice file offset (buffer ++ slice file (offset + buffer.length) most).length := by
  have hall : buffer ++ slice file (offset + buffer.length) most =
      slice file offset (buffer.length + most) := by
    rw [← slice_append_slice, ← hbuffer]
  rw [hall, slice_length_self]

/-- What the loop returns after the bytes it has. -/
theorem preadLoop_spec {answers : List Answer} {buffer : Bytes} {result : Except Error Bytes}
    (hpos : 0 < bytes) (hbuffer : buffer = slice file offset buffer.length)
    (hle : buffer.length ≤ bytes) (h : preadLoop file bytes offset answers buffer = some result) :
    result = preadExact file bytes offset ∨
      result = .error (.system "pread") ∧ .failed ∈ answers := by
  have hlength := congrArg List.length hbuffer
  rw [length_slice] at hlength
  have hdone : bytes ≤ buffer.length → .ok buffer = preadExact file bytes offset := by
    intro hall
    obtain rfl : bytes = buffer.length := Nat.le_antisymm hall hle
    rw [preadExact_of_le (by omega), ← hbuffer]
  induction answers generalizing buffer with
  | nil =>
      rw [preadLoop] at h
      split at h
      next hall => exact .inl ((Option.some.inj h).symm.trans (hdone hall))
      next => cases h
  | cons answer answers ih =>
      unfold preadLoop at h
      split at h
      next hall => exact .inl ((Option.some.inj h).symm.trans (hdone hall))
      next hmore =>
        cases answer with
        | interrupted =>
            rcases ih hbuffer hle h hlength hdone with hresult | ⟨hresult, hmem⟩
            · exact .inl hresult
            · exact .inr ⟨hresult, List.mem_cons_of_mem _ hmem⟩
        | failed => exact .inr ⟨(Option.some.inj h).symm, List.mem_cons_self⟩
        | upTo most =>
            dsimp only at h
            split at h
            next hend =>
              -- nothing is left of the file, and bytes are missing
              have hshort := congrArg List.length hend
              rw [length_slice, List.length_nil] at hshort
              rw [preadExact, if_neg (by omega)]
              exact .inl (Option.some.inj h).symm
            next =>
              have hnext := slice_moved hbuffer (min (max most 1) (bytes - buffer.length))
              have hnextLength := congrArg List.length hnext
              rw [length_slice] at hnextLength
              have hnextLe : (buffer ++ slice file (offset + buffer.length)
                  (min (max most 1) (bytes - buffer.length))).length ≤ bytes := by
                rw [List.length_append, length_slice]
                omega
              rcases ih hnext hnextLe h hnextLength (fun hall => by
                rw [hnext, Nat.le_antisymm hnextLe hall, preadExact_of_le (by omega)]) with
                hresult | ⟨hresult, hmem⟩
              · exact .inl hresult
              · exact .inr ⟨hresult, List.mem_cons_of_mem _ hmem⟩

/-- The loop returns once it has had an answer for each byte that is missing. -/
theorem preadLoop_returns {answers : List Answer} {buffer : Bytes}
    (h : bytes < buffer.length + served answers) :
    (preadLoop file bytes offset answers buffer).isSome := by
  induction answers generalizing buffer with
  | nil =>
      rw [preadLoop, if_pos (by simpa [served] using h.le)]
      rfl
  | cons answer answers ih =>
      unfold preadLoop
      split
      next => rfl
      next hmore =>
        cases answer with
        | interrupted => exact ih (by simpa [served] using h)
        | failed => rfl
        | upTo most =>
            have hserved : served (.upTo most :: answers) = served answers + 1 := by simp [served]
            dsimp only
            split
            next => rfl
            next hsome =>
              apply ih
              have hmoved := List.length_pos_of_ne_nil hsome
              rw [List.length_append]
              omega

end Read

section Write

variable {file buffer : Bytes} {offset : Nat}

theorem torn_all (hpos : buffer ≠ []) : torn file buffer offset buffer.length =
    overwrite 0 file offset buffer := by
  rw [torn, if_neg (mt List.length_eq_zero_iff.mp hpos), List.take_length]

/-- One more answer that moves bytes. -/
theorem torn_moved {completed moved : Nat} (hle : completed ≤ buffer.length) (hmoved : moved ≠ 0) :
    overwrite 0 (torn file buffer offset completed) (offset + completed)
        (slice buffer completed moved) = torn file buffer offset (completed + moved) := by
  have htake : (buffer.take completed).length = completed := by
    rw [List.length_take, Nat.min_eq_left hle]
  have hall : buffer.take completed ++ slice buffer completed moved =
      buffer.take (completed + moved) := List.take_add.symm
  rw [torn, torn, if_neg (by omega : completed + moved ≠ 0)]
  split
  next hzero =>
    subst hzero
    rw [Nat.add_zero, Nat.zero_add, slice, List.drop_zero]
  next => rw [← hall, ← overwrite_overwrite, htake]

/-- What the loop makes of the file: it has written a prefix of the buffer, and all of it
exactly when it returns. -/
theorem pwriteLoop_spec {answers : List Answer} {completed : Nat} (hle : completed ≤ buffer.length) :
    ∃ written ≤ buffer.length, (written = completed ∨ offset + written ≤ offMax) ∧
      (pwriteLoop buffer offset answers completed (torn file buffer offset completed)).1 =
        torn file buffer offset written ∧
      ((pwriteLoop buffer offset answers completed (torn file buffer offset completed)).2 =
        some (.ok ()) ↔ written = buffer.length) ∧
      ∀ error, (pwriteLoop buffer offset answers completed (torn file buffer offset completed)).2 =
        some (.error error) →
          error = .system "pwrite" ∧ (.failed ∈ answers ∨ offMax < offset + buffer.length) ∨
          error = .runtime "pwrite made no progress" ∧ .upTo 0 ∈ answers := by
  induction answers generalizing completed with
  -- `completed` grows with the answers: the invariant is that the file is torn there
  | nil =>
      refine ⟨completed, hle, .inl rfl, rfl, ?_, ?_⟩ <;> rw [pwriteLoop]
      · dsimp only
        split
        next hall => exact ⟨fun _ => Nat.le_antisymm hle hall, fun _ => rfl⟩
        next hmore => exact ⟨nofun, fun hall => absurd hall.ge hmore⟩
      · dsimp only
        split <;> nofun
  | cons answer answers ih =>
      have hlater : ∀ {error : Error},
          (error = .system "pwrite" ∧ (.failed ∈ answers ∨ offMax < offset + buffer.length) ∨
            error = .runtime "pwrite made no progress" ∧ .upTo 0 ∈ answers) →
          error = .system "pwrite" ∧ (.failed ∈ answer :: answers ∨ offMax < offset + buffer.length) ∨
            error = .runtime "pwrite made no progress" ∧ .upTo 0 ∈ answer :: answers := by
        rintro error (⟨herror, hfailed | hlarge⟩ | ⟨herror, hmem⟩)
        · exact .inl ⟨herror, .inl (List.mem_cons_of_mem _ hfailed)⟩
        · exact .inl ⟨herror, .inr hlarge⟩
        · exact .inr ⟨herror, List.mem_cons_of_mem _ hmem⟩
      unfold pwriteLoop
      split
      next hall =>
        exact ⟨completed, hle, .inl rfl, rfl, ⟨fun _ => Nat.le_antisymm hle hall, fun _ => rfl⟩, nofun⟩
      next hmore =>
        have hstopped : ∀ error : Error, some (Except.error error) = some (Except.ok ()) ↔
            completed = buffer.length := fun error => ⟨nofun, fun hall => absurd hall.ge hmore⟩
        cases answer with
        | interrupted =>
            obtain ⟨written, hwritten, hmax, hfile, hok, herror⟩ := ih hle
            exact ⟨written, hwritten, hmax, hfile, hok, fun error hresult => hlater (herror error hresult)⟩
        | failed =>
            refine ⟨completed, hle, .inl rfl, rfl, hstopped _, ?_⟩
            rintro _ ⟨⟩
            exact .inl ⟨rfl, .inl List.mem_cons_self⟩
        | upTo most =>
            dsimp only
            split
            next hfull =>
              refine ⟨completed, hle, .inl rfl, rfl, hstopped _, ?_⟩
              rintro _ ⟨⟩
              exact .inl ⟨rfl, .inr (by omega)⟩
            next hroom =>
              split
              next hnone =>
                refine ⟨completed, hle, .inl rfl, rfl, hstopped _, ?_⟩
                rintro _ ⟨⟩
                obtain rfl : most = 0 := by omega
                exact .inr ⟨rfl, List.mem_cons_self⟩
              -- progress: the induction hypothesis is used at the larger `completed`
              next hmoved =>
                rw [torn_moved hle hmoved]
                obtain ⟨written, hwritten, hmax, hfile, hok, herror⟩ := @ih (completed +
                  min (min most (buffer.length - completed)) (offMax - (offset + completed)))
                  (by omega)
                exact ⟨written, hwritten, .inr (by omega), hfile, hok,
                  fun error hresult => hlater (herror error hresult)⟩

theorem pwriteLoop_returns {answers : List Answer} {completed : Nat} {current : Bytes}
    (h : buffer.length < completed + served answers) :
    (pwriteLoop buffer offset answers completed current).2.isSome := by
  induction answers generalizing completed current with
  | nil =>
      rw [pwriteLoop]
      dsimp only
      rw [if_pos (by simpa [served] using h.le)]
      rfl
  | cons answer answers ih =>
      unfold pwriteLoop
      split
      next => rfl
      next hmore =>
        cases answer with
        | interrupted => exact ih (by simpa [served] using h)
        | failed => rfl
        | upTo most =>
            have hserved : served (.upTo most :: answers) = served answers + 1 := by simp [served]
            dsimp only
            split
            next => rfl
            next =>
              split
              next => rfl
              next hmoved => exact ih (by omega)

end Write

/-- Short transfers and interruptions do not show. A read returns what `pread_exact` returns in
one piece, or the error of a call. A write leaves a prefix of the buffer in the file and throws,
or returns and has made the write of `pwrite_exact`. Both return once enough calls were not
interrupted. -/
theorem transfer_loops_exact (file buffer : Bytes) (bytes offset : Nat) (hbytes : 0 < bytes)
    (hbuffer : buffer ≠ []) (answers : List Answer) :
    (∀ result, preadLoop file bytes offset answers [] = some result →
      result = preadExact file bytes offset ∨
        result = .error (.system "pread") ∧ .failed ∈ answers) ∧
    (bytes < served answers → (preadLoop file bytes offset answers []).isSome) ∧
    (∃ written ≤ buffer.length,
      (pwriteLoop buffer offset answers 0 file).1 = torn file buffer offset written ∧
      ((pwriteLoop buffer offset answers 0 file).2 = some (.ok ()) → written = buffer.length ∧
        pwriteExact file buffer offset = .ok (pwriteLoop buffer offset answers 0 file).1) ∧
      ∀ error, (pwriteLoop buffer offset answers 0 file).2 = some (.error error) →
        written < buffer.length ∧
        (error = .system "pwrite" ∧ (.failed ∈ answers ∨ offMax < offset + buffer.length) ∨
          error = .runtime "pwrite made no progress" ∧ .upTo 0 ∈ answers)) ∧
    (buffer.length < served answers → (pwriteLoop buffer offset answers 0 file).2.isSome) := by
  refine ⟨fun result => preadLoop_spec hbytes (by simp) (Nat.zero_le _),
    fun h => preadLoop_returns (by simpa using h), ?_,
    fun h => pwriteLoop_returns (by simpa using h)⟩
  obtain ⟨written, hle, hmax, hfile, hok, herror⟩ :=
    @pwriteLoop_spec file buffer offset answers 0 (Nat.zero_le _)
  rw [show torn file buffer offset 0 = file from if_pos rfl] at hfile hok herror
  have hpos := List.length_pos_of_ne_nil hbuffer
  refine ⟨written, hle, hfile, fun hreturns => ?_, fun error hthrows => ⟨?_, herror error hthrows⟩⟩
  · obtain rfl := hok.mp hreturns
    rw [pwriteExact_eq_ok, hfile, torn_all hbuffer]
    exact ⟨rfl, by omega, rfl⟩
  · apply lt_of_le_of_ne hle
    intro hall
    rw [hok.mpr hall] at hthrows
    cases hthrows

/-- A call that is interrupted and one that moves a single byte. -/
theorem transfer_loops_exact_two :
    pwriteLoop [7, 8] 1 [.interrupted, .upTo 1, .upTo 5] 0 [1] = ([1, 7, 8], some (.ok ())) ∧
      pwriteExact [1] [7, 8] 1 = .ok [1, 7, 8] := by
  have hloop : pwriteLoop [7, 8] 1 [.interrupted, .upTo 1, .upTo 5] 0 [1] =
      ([1, 7, 8], some (.ok ())) := by decide
  obtain ⟨-, -, ⟨written, -, -, hreturns, -⟩, -⟩ := transfer_loops_exact [1] [7, 8] 1 1
    Nat.one_pos (by decide) [.interrupted, .upTo 1, .upTo 5]
  have hwhole := (hreturns (by rw [hloop])).2
  rw [hloop] at hwhole
  exact ⟨hloop, hwhole⟩

end Recast
