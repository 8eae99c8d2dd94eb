import Gunda.Stream.Ts.Adts

/-!
# Audio framing and chunks

A round that goes on would have done the same with more bytes behind. Only a search for a sync
word that finds none drops bytes which the next chunk might have completed.
-/
namespace Gunda.Stream.Ts

open Gunda.Lib

variable {chunks : List Bytes} {track : AudioTrack}

namespace AudioTrack

variable {bytes : Bytes} {index : Nat} {next : AudioTrack}

/-- The track with more bytes behind those pending. -/
def fed (track : AudioTrack) (bytes : Bytes) : AudioTrack :=
  { track with pending := track.pending ++ bytes }

@[simp] theorem fed_pending (track : AudioTrack) (bytes : Bytes) :
    (track.fed bytes).pending = track.pending ++ bytes := rfl

theorem fed_nil (track : AudioTrack) : track.fed [] = track := by
  unfold fed
  rw [List.append_nil]

theorem fed_fed (track : AudioTrack) (first second : Bytes) :
    (track.fed first).fed second = track.fed (first ++ second) := by
  unfold fed
  rw [List.append_assoc]

/-! ## Sync words -/

theorem adtsSyncFrom_append {next : Nat} (more : Bytes) (h : adtsSyncFrom bytes index = some next) :
    adtsSyncFrom (bytes ++ more) index = some next ∧ index ≤ next ∧
      next + 2 ≤ index + bytes.length := by
  induction bytes generalizing index with
  | nil => cases h
  | cons a rest ih =>
    cases rest with
    | nil => cases h
    | cons b rest =>
      simp only [List.cons_append, adtsSyncFrom, List.length_cons] at h ⊢
      split at h
      · cases h
        rename_i sync
        rw [if_pos sync]
        refine ⟨rfl, Nat.le_refl _, by omega⟩
      · rename_i off
        rw [if_neg off]
        obtain ⟨same, low, high⟩ := ih h
        rw [List.length_cons] at high
        exact ⟨same, by omega, by omega⟩

/-- A search that ends in vain goes on behind, if no sync word lies across. -/
theorem adtsSyncFrom_behind {more : Bytes} (none_ : adtsSyncFrom bytes index = none)
    (apart : isAdtsSync (bytes.getLastD 0) (byteAt more 0) = false) :
    adtsSyncFrom (bytes ++ more) index = adtsSyncFrom more (index + bytes.length) := by
  induction bytes generalizing index with
  | nil => rfl
  | cons a rest ih =>
    cases rest with
    | nil =>
      cases more with
      | nil => rfl
      | cons b more =>
        have apart : isAdtsSync a b = false := apart
        simp only [List.cons_append, List.nil_append, adtsSyncFrom, apart, List.length_cons,
          List.length_nil, Bool.false_eq_true, if_false]
    | cons b rest =>
      simp only [List.cons_append, adtsSyncFrom] at none_ ⊢
      split at none_
      · cases none_
      · rename_i off
        rw [if_neg off]
        refine (ih none_ apart).trans ?_
        rw [List.length_cons (a := a), Nat.add_assoc, Nat.add_comm 1]

theorem adtsSyncFrom_shift (bytes : Bytes) (index n : Nat) :
    adtsSyncFrom bytes (index + n) = (adtsSyncFrom bytes index).map (· + n) := by
  induction bytes generalizing index with
  | nil => rfl
  | cons a rest ih =>
    cases rest with
    | nil => rfl
    | cons b rest =>
      simp only [adtsSyncFrom]
      split
      · rfl
      · rw [Nat.add_right_comm]
        exact ih (index + 1)

/-! ## Rounds with more bytes behind -/

variable {track : AudioTrack}

theorem configure_fed (bytes : Bytes) (long : 7 ≤ track.pending.length) :
    (track.fed bytes).configure = track.configure.map (·.fed bytes) := by
  unfold configure
  rw [fed_pending, byteAt_append (by omega), byteAt_append (by omega)]
  dsimp only
  split
  · rfl
  · split
    · rfl
    · have kept : (track.fed bytes).sampleRate = track.sampleRate := rfl
      rw [kept]
      cases track.sampleRate with
      | none => rfl
      | some known =>
        dsimp only
        split <;> rfl

theorem take_fed (bytes : Bytes) (long : 3 ≤ track.pending.length) :
    (track.fed bytes).pending.take 3 = track.pending.take 3 :=
  List.take_append_of_le_length long

theorem id3_long (id3 : bytes.take 3 = [0x49, 0x44, 0x33]) : 3 ≤ bytes.length := by
  have size := congrArg List.length id3
  rw [List.length_take] at size
  exact min_eq_left_iff.mp size

theorem id3v2Length_append (more : Bytes) (long : 10 ≤ bytes.length) :
    id3v2Length (bytes ++ more) = id3v2Length bytes := by
  have front : (bytes ++ more).take 3 = bytes.take 3 := List.take_append_of_le_length (by omega)
  have still : ¬ (bytes ++ more).length < 10 := by
    rw [List.length_append]
    omega
  unfold id3v2Length
  rw [front, byteAt_append (by omega), byteAt_append (by omega), byteAt_append (by omega),
    byteAt_append (by omega), byteAt_append (by omega)]
  simp only [still, Nat.not_lt.mpr long]

/-- The bytes of a header are the same with more behind. -/
theorem header_fed (bytes : Bytes) (long : 7 ≤ track.pending.length) :
    adtsHeader (track.fed bytes).pending = adtsHeader track.pending ∧
      adtsLength (track.fed bytes).pending = adtsLength track.pending := by
  unfold adtsHeader adtsLength
  rw [fed_pending, byteAt_append (by omega), byteAt_append (by omega), byteAt_append (by omega),
    byteAt_append (by omega)]
  exact ⟨rfl, rfl⟩

theorem configure_pending {configured : AudioTrack} (h : track.configure = .ok configured) :
    configured.pending = track.pending := by
  unfold configure at h
  dsimp only at h
  split at h
  · cases h
  · obtain ⟨_, h⟩ := throw_unless_ok h
    split at h
    · obtain ⟨_, h⟩ := throw_unless_ok h
      cases h
      rfl
    · cases h
      rfl

def Round.fed (bytes : Bytes) : Round → Round
  | .stop track => .stop (track.fed bytes)
  | .again track => .again (track.fed bytes)
  | .frame track found => .frame (track.fed bytes) found

theorem tagRound_fed (bytes : Bytes) (h : ∀ next, track.tagRound ≠ .stop next) :
    (track.fed bytes).tagRound = track.tagRound.fed bytes := by
  unfold tagRound at h ⊢
  by_cases few : track.pending.length < 10
  · rw [if_pos few] at h
    exact absurd rfl (h track)
  · have long : ¬ (track.fed bytes).pending.length < 10 := by
      rw [fed_pending, List.length_append]
      omega
    rw [if_neg few] at h ⊢
    rw [if_neg long, fed_pending, id3v2Length_append bytes (by omega)]
    cases size : id3v2Length track.pending with
    | none =>
      rw [size] at h
      exact absurd rfl (h track)
    | some tag =>
      rw [size] at h
      dsimp only at h ⊢
      by_cases short : track.pending.length < tag
      · rw [if_pos short] at h
        exact absurd rfl (h track)
      · have whole : ¬ (track.pending ++ bytes).length < tag := by
          rw [List.length_append]
          omega
        rw [if_neg short, if_neg whole, List.drop_append_of_le_length (by omega)]
        rfl

theorem slice_front {offset size : Nat} (more : Bytes) (inside : offset + size ≤ bytes.length) :
    Bytes.slice (bytes ++ more) offset size = Bytes.slice bytes offset size := by
  unfold Bytes.slice
  rw [List.drop_append_of_le_length (by omega), List.take_append_of_le_length]
  rw [List.length_drop]
  omega

theorem frameRound_fed (bytes : Bytes) (long : 7 ≤ track.pending.length)
    (h : ∀ next, track.frameRound ≠ .ok (.stop next)) :
    (track.fed bytes).frameRound = track.frameRound.map (Round.fed bytes) := by
  obtain ⟨header, length⟩ := header_fed bytes long
  unfold frameRound at h ⊢
  rw [header, length]
  by_cases short : track.pending.length < adtsHeader track.pending
  · rw [if_pos short] at h
    exact absurd rfl (h track)
  · have still : ¬ (track.fed bytes).pending.length < adtsHeader track.pending := by
      rw [fed_pending, List.length_append]
      omega
    rw [if_neg short] at h ⊢
    rw [if_neg still]
    by_cases less : adtsLength track.pending < adtsHeader track.pending
    · rw [if_pos less, if_pos less]
      rfl
    · rw [if_neg less] at h ⊢
      rw [if_neg less]
      by_cases waits : track.pending.length < adtsLength track.pending
      · rw [if_pos waits] at h
        exact absurd rfl (h track)
      · have enough : ¬ (track.fed bytes).pending.length < adtsLength track.pending := by
          rw [fed_pending, List.length_append]
          omega
        rw [if_neg waits, if_neg enough, configure_fed bytes long]
        cases made : track.configure with
        | error e => rfl
        | ok configured =>
          have same := configure_pending made
          have left : (configured.fed bytes).pending.drop (adtsLength track.pending) =
              configured.pending.drop (adtsLength track.pending) ++ bytes := by
            rw [fed_pending, same, List.drop_append_of_le_length (by omega)]
          have payload : Bytes.slice (configured.fed bytes).pending (adtsHeader track.pending)
              (adtsLength track.pending - adtsHeader track.pending) =
              Bytes.slice configured.pending (adtsHeader track.pending)
                (adtsLength track.pending - adtsHeader track.pending) := by
            rw [fed_pending, same]
            exact slice_front bytes (by omega)
          change Except.ok (Round.frame { configured.fed bytes with
            pending := (configured.fed bytes).pending.drop _ } (Bytes.slice _ _ _)) = _
          rw [left, payload]
          rfl

/-- A round that goes on or fails does so with more bytes behind too. -/
theorem round_fed (bytes : Bytes) (h : ∀ next, track.round ≠ .ok (.stop next)) :
    (track.fed bytes).round = track.round.map (Round.fed bytes) := by
  by_cases id3 : track.pending.take 3 = [0x49, 0x44, 0x33]
  · have still : (track.fed bytes).pending.take 3 = [0x49, 0x44, 0x33] :=
      (take_fed bytes (id3_long id3)).trans id3
    unfold round at h ⊢
    rw [if_pos id3] at h ⊢
    rw [if_pos still]
    exact congrArg Except.ok
      (tagRound_fed bytes fun next stop => h next (congrArg Except.ok stop))
  · unfold round at h ⊢
    rw [if_neg id3] at h ⊢
    by_cases few : track.pending.length < 7
    · rw [if_pos few] at h
      exact absurd rfl (h track)
    · have long : ¬ (track.fed bytes).pending.length < 7 := by
        rw [fed_pending, List.length_append]
        omega
      rw [take_fed bytes (by omega), if_neg id3, if_neg long, fed_pending,
        byteAt_append (by omega), byteAt_append (by omega)]
      rw [if_neg few] at h ⊢
      by_cases off : (!isAdtsSync (byteAt track.pending 0) (byteAt track.pending 1)) = true
      · rw [if_pos off] at h ⊢
        rw [if_pos off]
        cases search : findAdtsSync track.pending 1 with
        | none =>
          rw [search] at h
          exact absurd rfl (h _)
        | some next =>
          obtain ⟨same, _, within⟩ := adtsSyncFrom_append bytes search
          rw [List.length_drop] at within
          have behind : findAdtsSync (track.pending ++ bytes) 1 = some next := by
            unfold findAdtsSync
            rw [List.drop_append_of_le_length (by omega)]
            exact same
          rw [behind]
          dsimp only
          rw [List.drop_append_of_le_length (by omega)]
          rfl
      · rw [if_neg off] at h ⊢
        rw [if_neg off]
        exact frameRound_fed bytes (by omega) h

/-! ## Where rounds stop -/

/-- A search through the pending bytes that finds no sync word. -/
structure SearchedInVain (track : AudioTrack) : Prop where
  long : 7 ≤ track.pending.length
  id3 : track.pending.take 3 ≠ [0x49, 0x44, 0x33]
  off : isAdtsSync (byteAt track.pending 0) (byteAt track.pending 1) = false
  vain : findAdtsSync track.pending 1 = none

theorem round_stop (h : track.round = .ok (.stop next)) :
    next = track ∨ SearchedInVain track ∧ next = { track with pending := [] } := by
  unfold round at h
  obtain ⟨_, h⟩ | ⟨id3, h⟩ := ite_ok h
  · exact .inl (tagRound_stop (Except.ok.inj h))
  · obtain ⟨_, h⟩ | ⟨long, h⟩ := ite_ok h
    · cases h
      exact .inl rfl
    · obtain ⟨off, h⟩ | ⟨_, h⟩ := ite_ok h
      · cases search : findAdtsSync track.pending 1 with
        | none =>
          rw [search] at h
          cases h
          exact .inr ⟨⟨by omega, id3, by simpa using off, search⟩, rfl⟩
        | some index =>
          rw [search] at h
          cases h
      · unfold frameRound at h
        obtain ⟨_, h⟩ | ⟨_, h⟩ := ite_ok h
        · cases h
          exact .inl rfl
        · obtain ⟨_, h⟩ := throw_unless_ok h
          obtain ⟨_, h⟩ | ⟨_, h⟩ := ite_ok h
          · cases h
            exact .inl rfl
          · obtain ⟨configured, _, h⟩ := bind_ok h
            cases h

theorem round_few (few : track.pending.length < 7)
    (id3 : track.pending.take 3 ≠ [0x49, 0x44, 0x33]) : track.round = .ok (.stop track) := by
  unfold round
  rw [if_neg id3, if_pos few]

/-- The track that a round leaves behind stands still. -/
theorem round_stopped (h : track.round = .ok (.stop next)) :
    next.round = .ok (.stop next) := by
  cases round_stop h with
  | inl same =>
    subst same
    exact h
  | inr cleared =>
    rw [cleared.2]
    exact round_few (Nat.zero_lt_succ _) fun id3 => (nomatch id3)

def Round.onward : Round → Option AudioTrack
  | .stop _ => none
  | .again track => some track
  | .frame track _ => some track

theorem round_onward {round : Round} (more : Bytes) (h : track.round = .ok round)
    (onward : round.onward = some next) :
    (track.fed more).round = .ok (round.fed more) := by
  rw [round_fed more, h]
  · rfl
  · intro stopped stop
    rw [h] at stop
    cases stop
    cases onward

theorem adtsHeader_pos (bytes : Bytes) : 0 < adtsHeader bytes := by
  unfold adtsHeader
  split <;> decide

theorem id3v2Length_pos {size : Nat} (h : id3v2Length bytes = some size) :
    0 < size := by
  unfold id3v2Length at h
  split at h
  · cases h
  · cases h
    omega

theorem round_shrinks {round : Round} (h : track.round = .ok round)
    (onward : round.onward = some next) : next.pending.length < track.pending.length := by
  unfold AudioTrack.round at h
  obtain ⟨id3, h⟩ | ⟨id3, h⟩ := ite_ok h
  · have some_ := id3_long id3
    cases h
    unfold tagRound at onward
    split at onward
    · cases onward
    · cases size : id3v2Length track.pending with
      | none =>
        rw [size] at onward
        cases onward
      | some tag =>
        rw [size] at onward
        have := id3v2Length_pos size
        dsimp only at onward
        split at onward
        · cases onward
        · cases onward
          rw [List.length_drop]
          omega
  · obtain ⟨_, h⟩ | ⟨long, h⟩ := ite_ok h
    · cases h
      cases onward
    · obtain ⟨off, h⟩ | ⟨_, h⟩ := ite_ok h
      · cases search : findAdtsSync track.pending 1 with
        | none =>
          rw [search] at h
          cases h
          cases onward
        | some index =>
          rw [search] at h
          cases h
          cases onward
          have := (adtsSyncFrom_append [] search).2.1
          rw [List.length_drop]
          omega
      · unfold frameRound at h
        have := adtsHeader_pos track.pending
        obtain ⟨_, h⟩ | ⟨_, h⟩ := ite_ok h
        · cases h
          cases onward
        · obtain ⟨_, h⟩ := throw_unless_ok h
          obtain ⟨_, h⟩ | ⟨_, h⟩ := ite_ok h
          · cases h
            cases onward
          · obtain ⟨configured, made, h⟩ := bind_ok h
            cases h
            cases onward
            rw [configure_pending made, List.length_drop]
            omega

/-! ## All rounds -/

/-- The frames that the rounds find in the pending bytes. -/
def found (track : AudioTrack) : Except MuxError (List Bytes) :=
  match _ : track.round with
  | .error e => .error e
  | .ok (.stop _) => .ok []
  | .ok (.again next) => next.found
  | .ok (.frame next frame) => next.found.map (frame :: ·)
termination_by track.pending.length
decreasing_by
  · exact round_shrinks ‹_› rfl
  · exact round_shrinks ‹_› rfl

theorem found_error {e : MuxError} (h : track.round = .error e) :
    track.found = .error e := by
  rw [found]
  split <;> rename_i same <;> rw [h] at same <;> cases same
  rfl

theorem found_stop (h : track.round = .ok (.stop next)) :
    track.found = .ok [] := by
  rw [found]
  split <;> rename_i same <;> rw [h] at same <;> cases same

theorem found_again (h : track.round = .ok (.again next)) :
    track.found = next.found := by
  rw [found]
  split <;> rename_i same <;> rw [h] at same <;> cases same
  rfl

theorem found_frame {frame : Bytes} (h : track.round = .ok (.frame next frame)) :
    track.found = next.found.map (frame :: ·) := by
  rw [found]
  split <;> rename_i same <;> rw [h] at same <;> cases same
  rfl

/-- The track at the last of the rounds. -/
def standing : Nat → AudioTrack → AudioTrack
  | 0, track => track
  | rounds + 1, track =>
      match track.round with
      | .ok (.again next) => standing rounds next
      | .ok (.frame next _) => standing rounds next
      | _ => track

theorem pushRounds_error {rounds : Nat} {frames : List Bytes} {e : MuxError} (more : Bytes)
    (h : pushRounds rounds track frames = .error e) :
    (track.fed more).found = .error e := by
  induction rounds generalizing track frames with
  | zero => cases h
  | succ rounds ih =>
    unfold pushRounds at h
    cases found : track.round with
    | error e' =>
      have same : (track.fed more).round = _ := round_fed more fun next stop => by
        rw [found] at stop
        cases stop
      rw [found] at h same
      cases h
      exact found_error same
    | ok round =>
      rw [found] at h
      cases round with
      | stop next => cases h
      | again next =>
        rw [found_again (round_onward more found rfl)]
        exact ih h
      | frame next frame =>
        rw [found_frame (round_onward more found rfl), ih h]
        rfl

/-- With more bytes behind, the rounds find the same frames and go on from where they stand. -/
theorem pushRounds_ok {rounds : Nat} {pushed : AudioTrack} {frames all : List Bytes}
    (more : Bytes) (enough : track.pending.length < rounds)
    (h : pushRounds rounds track frames = .ok (pushed, all)) :
    (standing rounds track).round = .ok (.stop pushed) ∧ ∃ gained, all = frames ++ gained ∧
      (track.fed more).found = ((standing rounds track).fed more).found.map (gained ++ ·) := by
  induction rounds generalizing track frames with
  | zero => cases enough
  | succ rounds ih =>
    unfold pushRounds at h
    obtain ⟨round, found, h⟩ := bind_ok h
    cases round with
    | stop next =>
      cases h
      rw [standing, found]
      refine ⟨found, [], (List.append_nil _).symm, ?_⟩
      cases (track.fed more).found <;> rfl
    | again next =>
      have shorter := round_shrinks found rfl
      obtain ⟨stands, gained, same, rest⟩ := ih (by omega) h
      rw [standing, found, found_again (round_onward more found rfl)]
      exact ⟨stands, gained, same, rest⟩
    | frame next frame =>
      have shorter := round_shrinks found rfl
      obtain ⟨stands, gained, same, rest⟩ := ih (by omega) h
      rw [standing, found, found_frame (round_onward more found rfl), rest]
      refine ⟨stands, frame :: gained, ?_, ?_⟩
      · rw [same, List.append_assoc]
        rfl
      · cases ((standing rounds next).fed more).found <;> rfl

/-! ## Bytes that are dropped -/

/-- The bytes behind do not complete a sync word with the last one before, nor do they begin
as a tag does. -/
def Apart (before behind : Bytes) : Prop :=
  isAdtsSync (before.getLastD 0) (byteAt behind 0) = false ∧
    behind.take 3 ≠ [0x49, 0x44, 0x33]
  deriving Decidable

theorem getLastD_drop (long : 7 ≤ bytes.length) :
    (bytes.drop 1).getLastD 0 = bytes.getLastD 0 := by
  match bytes, long with
  | _ :: _ :: _, _ => rfl

theorem findAdtsSync_behind (searched : SearchedInVain track) (apart : Apart track.pending bytes) :
    findAdtsSync (track.pending ++ bytes) 1 =
      (findAdtsSync bytes 0).map (· + track.pending.length) := by
  have long := searched.long
  have behind := adtsSyncFrom_behind searched.vain (getLastD_drop long ▸ apart.1)
  have index : 1 + (track.pending.drop 1).length = 0 + track.pending.length := by
    rw [List.length_drop]
    omega
  rw [index, adtsSyncFrom_shift] at behind
  unfold findAdtsSync
  rw [List.drop_append_of_le_length (by omega)]
  exact behind

theorem adtsSyncFrom_sync {next : Nat} (h : adtsSyncFrom bytes index = some next) :
    isAdtsSync (byteAt (bytes.drop (next - index)) 0) (byteAt (bytes.drop (next - index)) 1) =
      true := by
  induction bytes generalizing index with
  | nil => cases h
  | cons a rest ih =>
    cases rest with
    | nil => cases h
    | cons b rest =>
      simp only [adtsSyncFrom] at h
      split at h
      · cases h
        rename_i sync
        rw [Nat.sub_self]
        exact sync
      · have low := (adtsSyncFrom_append [] h).2.1
        have step : next - index = next - (index + 1) + 1 := by omega
        rw [step, List.drop_succ_cons]
        exact ih h

theorem findAdtsSync_first (long : 2 ≤ bytes.length) :
    findAdtsSync bytes 0 =
      if isAdtsSync (byteAt bytes 0) (byteAt bytes 1) then some 0 else findAdtsSync bytes 1 := by
  match bytes, long with
  | _ :: _ :: _, _ => rfl

theorem round_off (long : 7 ≤ track.pending.length)
    (id3 : track.pending.take 3 ≠ [0x49, 0x44, 0x33])
    (off : isAdtsSync (byteAt track.pending 0) (byteAt track.pending 1) = false) :
    track.round = match findAdtsSync track.pending 1 with
      | none => .ok (.stop { track with pending := [] })
      | some next => .ok (.again { track with pending := track.pending.drop next }) := by
  unfold round
  rw [if_neg id3, if_neg (by omega), off, Bool.not_false]
  cases findAdtsSync track.pending 1 <;> rfl

/-- What has been searched in vain may be dropped, unless it belongs to what comes. -/
theorem found_behind (searched : SearchedInVain track) (apart : Apart track.pending bytes) :
    (track.fed bytes).found = ({ track with pending := bytes } : AudioTrack).found := by
  have long := searched.long
  have first : (track.fed bytes).round = match findAdtsSync (track.pending ++ bytes) 1 with
      | none => .ok (.stop { track with pending := [] })
      | some next => .ok (.again { track with pending := (track.pending ++ bytes).drop next }) := by
    refine @round_off (track.fed bytes) ?_ ?_ ?_
    · rw [fed_pending, List.length_append]
      omega
    · rw [take_fed bytes (by omega)]
      exact searched.id3
    · rw [fed_pending, byteAt_append (by omega), byteAt_append (by omega)]
      exact searched.off
  rw [findAdtsSync_behind searched apart] at first
  have moves (index : Nat) (search : findAdtsSync bytes 0 = some index) :
      (track.fed bytes).round = .ok (.again { track with pending := bytes.drop index }) := by
    have across : (track.pending ++ bytes).drop (index + track.pending.length) =
        bytes.drop index := by
      rw [Nat.add_comm, ← List.drop_drop, List.drop_left]
    rw [search] at first
    rw [first, ← across]
    rfl
  by_cases few : bytes.length < 7
  · have still : ({ track with pending := bytes } : AudioTrack).round =
        .ok (.stop { track with pending := bytes }) := round_few few apart.2
    rw [found_stop still]
    cases search : findAdtsSync bytes 0 with
    | none =>
      rw [search] at first
      exact found_stop first
    | some index =>
      have sync := adtsSyncFrom_sync search
      have less : (bytes.drop index).length < 7 := by
        rw [List.length_drop]
        omega
      rw [found_again (moves index search)]
      exact found_stop (round_few less fun id3 => not_sync_of_id3 id3 sync)
  · have start : findAdtsSync bytes 0 = _ := findAdtsSync_first (by omega)
    by_cases sync : isAdtsSync (byteAt bytes 0) (byteAt bytes 1) = true
    · rw [if_pos sync] at start
      exact found_again (moves 0 start)
    · have second := @round_off { track with pending := bytes } (Nat.le_of_not_lt few) apart.2
        (Bool.eq_false_iff.mpr sync)
      rw [if_neg sync] at start
      cases search : findAdtsSync bytes 1 with
      | none =>
        rw [start, search] at first
        rw [search] at second
        rw [found_stop first, found_stop second]
      | some index =>
        rw [search] at second
        rw [found_again (moves index (start.trans search)), found_again second]

end AudioTrack

/-! ## Chunks -/

open AudioTrack

/-- The track at the last round of a push. -/
def lastStanding (track : AudioTrack) (chunk : Bytes) : AudioTrack :=
  standing ((track.fed chunk).pending.length + 1) (track.fed chunk)

/-- No push drops bytes that belong to the chunks to come. -/
def NothingDropped : AudioTrack → List Bytes → Prop
  | _, [] => True
  | track, chunk :: chunks =>
      match (lastStanding track chunk).round with
      | .ok (.stop next) =>
          (next.pending = (lastStanding track chunk).pending ∨
            Apart (lastStanding track chunk).pending chunks.flatten) ∧ NothingDropped next chunks
      | _ => True

/-- No push leaves more bytes pending than are supported. -/
def Bounded : AudioTrack → List Bytes → Prop
  | _, [] => True
  | track, chunk :: chunks =>
      match (lastStanding track chunk).round with
      | .ok (.stop next) => next.pending.length ≤ maxPending ∧ Bounded next chunks
      | _ => True

/-- What chunks are made of is what would be made of all their bytes in one go. -/
theorem pushChunk_found {frames : List Bytes} (still : track.round = .ok (.stop track))
    (nothing : NothingDropped track chunks) (bounded : Bounded track chunks) :
    (chunks.foldlM pushChunk (track, frames)).map (fun state => (state.1.flush state.2).2) =
      (track.fed chunks.flatten).found.map (frames ++ ·) := by
  induction chunks generalizing track frames with
  | nil =>
    rw [List.flatten_nil, fed_nil, found_stop still]
    change Except.ok (track.flush frames).2 = Except.ok (frames ++ [])
    rw [flush_of_stop still, List.append_nil]
  | cons chunk chunks ih =>
    rw [List.foldlM_cons, List.flatten_cons, ← fed_fed]
    unfold pushChunk AudioTrack.push
    change Except.map _ ((pushRounds ((track.fed chunk).pending.length + 1) (track.fed chunk) frames
      >>= _) >>= _) = _
    cases rounds : pushRounds ((track.fed chunk).pending.length + 1) (track.fed chunk) frames with
    | error e =>
      rw [pushRounds_error chunks.flatten rounds]
      rfl
    | ok result =>
      obtain ⟨pushed, all⟩ := result
      obtain ⟨stop, gained, same, rest⟩ :=
        pushRounds_ok chunks.flatten (Nat.lt_succ_self _) rounds
      change (lastStanding track chunk).round = _ at stop
      change _ = Except.map _ ((lastStanding track chunk).fed _).found at rest
      unfold NothingDropped at nothing
      unfold Bounded at bounded
      rw [stop] at nothing bounded
      obtain ⟨kept, onward⟩ := nothing
      obtain ⟨small, within⟩ := bounded
      have behind : (pushed.fed chunks.flatten).found =
          ((lastStanding track chunk).fed chunks.flatten).found := by
        cases round_stop stop with
        | inl same => rw [same]
        | inr cleared =>
          obtain ⟨searched, empty⟩ := cleared
          have long := searched.long
          have dropped := kept.resolve_left fun same => by
            rw [← same, empty] at long
            cases long
          rw [found_behind searched dropped, empty]
          rfl
      have later : Except.map _ (chunks.foldlM pushChunk (pushed, all)) = _ :=
        ih (round_stopped stop) onward within
      have fits : ¬ maxPending < pushed.pending.length := Nat.not_lt.mpr small
      rw [rest, ← behind]
      refine Eq.trans ?_ (later.trans ?_)
      · change Except.map _ ((if maxPending < pushed.pending.length then _ else _) >>= _) = _
        rw [if_neg fits]
        rfl
      · rw [same]
        cases (pushed.fed chunks.flatten).found with
        | error e => rfl
        | ok others => exact congrArg Except.ok (List.append_assoc frames gained others)

theorem framing_found (nothing : NothingDropped .default chunks)
    (bounded : Bounded .default chunks) :
    framing chunks = (AudioTrack.default.fed chunks.flatten).found.map ([] ++ ·) := by
  have still : AudioTrack.default.round = .ok (.stop .default) := rfl
  rw [← pushChunk_found still nothing bounded]
  unfold framing
  cases chunks.foldlM pushChunk (AudioTrack.default, []) <;> rfl

theorem standing_items {items : List AdtsItem} {tail : Bytes} {rounds : Nat} {next : AudioTrack}
    (stands : track.pending = encodeItems items ++ tail) (unfinished : BrokenOff tail)
    (enough : track.pending.length < rounds)
    (h : (standing rounds track).round = .ok (.stop next)) :
    (standing rounds track).pending = tail ∧ next.pending = tail := by
  induction items generalizing rounds track with
  | nil =>
    cases rounds with
    | zero => cases enough
    | succ rounds =>
      have still : track.pending = tail := stands
      have waits := round_brokenOff (still ▸ unfinished)
      rw [standing, waits] at h ⊢
      rw [waits] at h
      cases h
      exact ⟨still, still⟩
  | cons item items ih =>
    cases rounds with
    | zero => cases enough
    | succ rounds =>
      rw [encodeItems, List.append_assoc] at stands
      have size := encode_pos item
      rw [stands, List.length_append] at enough
      cases item with
      | tag tag =>
        rw [standing, round_tag stands] at h ⊢
        exact ih rfl (by dsimp only; omega) h
      | frame frame =>
        cases made : track.configure with
        | error e =>
          have fails : track.round = .error e := by
            rw [round_frame stands, made]
            rfl
          rw [standing, fails] at h
          rw [fails] at h
          cases h
        | ok configured =>
          have goes := round_frame stands
          rw [made] at goes
          have left : configured.pending.drop frame.length = encodeItems items ++ tail := by
            rw [configure_pending made, stands, ← frame.encode_length]
            exact List.drop_left
          rw [standing, goes] at h ⊢
          refine ih left ?_ h
          dsimp only
          rw [left]
          omega

/-- Of a stream of tags and frames nothing is dropped, wherever it is cut. -/
theorem nothingDropped_items {items : List AdtsItem} {tail : Bytes}
    (stands : track.pending ++ chunks.flatten = encodeItems items ++ tail)
    (unfinished : BrokenOff tail) : NothingDropped track chunks := by
  induction chunks generalizing track items with
  | nil => trivial
  | cons chunk chunks ih =>
    rw [List.flatten_cons, ← List.append_assoc] at stands
    obtain ⟨front, left, middle, parts, same, broken, behind⟩ := items_cut unfinished stands
    unfold NothingDropped
    split
    · rename_i next stop
      obtain ⟨last, rest⟩ := standing_items same broken (Nat.lt_succ_self _) stop
      exact ⟨.inl (rest.trans last.symm), ih (rest ▸ behind)⟩
    · trivial

/-- The frames do not depend on how the bytes are cut, as long as no push drops any that belong
to the next chunks. Those of a stream of tags and frames are its payloads, and none of its bytes
are dropped. -/
theorem chunks_are_immaterial (chunks : List Bytes) :
    (∀ others : List Bytes, others.flatten = chunks.flatten →
      NothingDropped .default chunks → NothingDropped .default others →
      Bounded .default chunks → Bounded .default others → framing chunks = framing others) ∧
      ∀ items, chunks.flatten = encodeItems items → NothingDropped .default chunks ∧
        ∀ frames, framing chunks = .ok frames →
          frames = (framesOf items).map AdtsFrame.payload := by
  constructor
  · intro others same nothing nothing' bounded bounded'
    rw [framing_found nothing bounded, framing_found nothing' bounded', same]
  · intro items stream
    have stands := stream.trans (List.append_nil _).symm
    exact ⟨nothingDropped_items stands brokenOff_nil,
      fun frames found => framing_payloads stands brokenOff_nil found⟩

/-- Two frames, the first one cut behind three bytes. -/
def cutFrames : List Bytes :=
  [[0xFF, 0xF1, 0x50], [0x80, 0x01, 0x3F, 0xFC, 0xDE, 0x04] ++ (stereoFrame 1 lowComplexity_lt).encode]

theorem cutFrames_framed : (framing cutFrames).toOption.any (fun _ => true) = true := by
  decide +kernel

theorem chunks_are_immaterial_cutFrames : framing cutFrames = framing [cutFrames.flatten] ∧
    ∃ frames, framing cutFrames = .ok frames ∧ frames = [[0xDE, 0x04], [0xDE, 0x04]] := by
  have whole : [cutFrames.flatten].flatten = cutFrames.flatten := by decide +kernel
  obtain ⟨frames, framed, _⟩ := toOption_any_ok cutFrames_framed
  obtain ⟨immaterial, payloads⟩ := chunks_are_immaterial cutFrames
  refine ⟨immaterial _ whole ?_ ?_ ?_ ?_, frames, framed, ?_⟩
  · exact ⟨.inl rfl, .inl rfl, trivial⟩
  · exact ⟨.inl rfl, trivial⟩
  · exact ⟨by decide, by decide, trivial⟩
  · exact ⟨by decide, trivial⟩
  · exact (payloads [.frame (stereoFrame 1 (by decide)), .frame (stereoFrame 1 (by decide))]
      (by decide +kernel)).2 _ framed

/-- Of a sync word across two chunks the first byte is dropped, and the frame with it. -/
theorem sync_word_across_chunks_is_lost :
    (framing [[0, 0, 0, 0, 0, 0], (stereoFrame 1 (by decide)).encode]).toOption =
        some [[0xDE, 0x04]] ∧
      (framing [[0, 0, 0, 0, 0, 0, 0xFF],
        (stereoFrame 1 (by decide)).encode.drop 1]).toOption = some [] ∧
      ([[0, 0, 0, 0, 0, 0], (stereoFrame 1 (by decide)).encode] : List Bytes).flatten =
        ([[0, 0, 0, 0, 0, 0, 0xFF], (stereoFrame 1 (by decide)).encode.drop 1] :
          List Bytes).flatten := by
  refine ⟨?_, ?_, ?_⟩ <;> decide +kernel

end Gunda.Stream.Ts
