import CommandTape.Proofs.Steps
import CommandTape.Proofs.Walking

/-!
# What becomes of decoded items

Playing a record that holds a blob is an episode in the life of the items that the reading client
puts into the slot (`Playback.Episode`): at most one of them is shown to the visitor, it is in the
slot as long as it is visited, and it is destroyed before the next record is read. However a
playback ends, the items that it destroyed are those that were put into the slot, each once, and
none of those that lie on the tape (`Tape.forEach_accounts`). A client that puts the slot away, and
another one in its place, has to destroy what is in it.
-/

namespace CommandTape

variable {σ γ C : Type}

namespace Playback

/-! ## One record -/

/-- The decoding left the item in the slot, where it is still to be destroyed, and all else that the
slot had to destroy is destroyed. The visitor has not seen anything of this. -/
structure Holds (decoding : Decoding) (item : Item) (location : Location)
    (before p : Playback σ γ) : Prop where
  view_eq : p.slot.view? = some (decoding.viewOf location item)
  held_eq : p.slot.held = item.remains
  visited_eq : p.visited = before.visited
  ledger : ∃ gone, p.session.destroyed.toList = before.session.destroyed.toList ++ gone ∧
    (gone ++ item.remains).Perm decoding.remains

/-- What playing a record comes to, and the decoding that was made for it, if there was any. -/
inductive Episode (reader? : Option (ReadingClient σ)) (f : Visitor σ γ) :
    Frame → Playback σ γ → Outcome DecodeError Unit × Playback σ γ → Option Decoding → Prop
  /-- An item that lies in its record is visited there. -/
  | inline {location : Location} {view : View} {p q : Playback σ γ} {outcome : Except Fault Unit}
      (hvisit : p.visit f view = (outcome, q)) :
      Episode reader? f ⟨location, .inline view⟩ p (.ofFaulty outcome, q) none
  /-- There is no client for the record. -/
  | unread {location : Location} {tag : Tag} {blob : Bytes} {p : Playback σ γ}
      (hnone : reader? = none) :
      Episode reader? f ⟨location, .encoded tag blob⟩ p
        (.error (.failed .missingReadingClient), p) none
  /-- A decoded item of the record's tag is visited in the slot, and destroyed then. -/
  | shown {location : Location} {tag : Tag} {blob : Bytes} {p m q : Playback σ γ}
      {client : ReadingClient σ} {item : Item} (hclient : reader? = some client)
      (htag : item.kind.tag = tag)
      (hholds : Holds (client.answer location p.session.clients blob tag) item location p m)
      (hvisit : m.visit f
        ((client.answer location p.session.clients blob tag).viewOf location item) = (.ok (), q)) :
      Episode reader? f ⟨location, .encoded tag blob⟩ p (.ok (), q.resetSlot)
        (some (client.answer location p.session.clients blob tag))
  /-- The visitor gives up at the item, which is still in the slot. -/
  | gaveUp {location : Location} {tag : Tag} {blob : Bytes} {p m q : Playback σ γ}
      {client : ReadingClient σ} {item : Item} {e : Fault} (hclient : reader? = some client)
      (htag : item.kind.tag = tag)
      (hholds : Holds (client.answer location p.session.clients blob tag) item location p m)
      (hvisit : m.visit f
        ((client.answer location p.session.clients blob tag).viewOf location item) =
          (.error e, q)) :
      Episode reader? f ⟨location, .encoded tag blob⟩ p (.error (.fault e), q)
        (some (client.answer location p.session.clients blob tag))
  /-- The decoding fails, or leaves no item of the record's tag: none is visited. -/
  | unshown {location : Location} {tag : Tag} {blob : Bytes} {p q : Playback σ γ}
      {client : ReadingClient σ} {halt : Halt DecodeError} {gone : List Item}
      (hclient : reader? = some client)
      (hresult : ∀ item, (client.answer location p.session.clients blob tag).result =
        .ok (some item) → item.kind.tag ≠ tag)
      (hvisited : q.visited = p.visited)
      (hgone : q.session.destroyed.toList = p.session.destroyed.toList ++ gone)
      (hperm : (gone ++ q.slot.held).Perm
        (client.answer location p.session.clients blob tag).remains) :
      Episode reader? f ⟨location, .encoded tag blob⟩ p (.error halt, q)
        (some (client.answer location p.session.clients blob tag))

variable {reader? : Option (ReadingClient σ)} {f : Visitor σ γ}

theorem toList_destroyed_resetSlot (p : Playback σ γ) :
    p.resetSlot.session.destroyed.toList = p.session.destroyed.toList ++ p.slot.held :=
  Session.toList_destroyed_destroy _ _

/-- What a decoding puts into a slot that holds nothing is destroyed, or held in the slot. -/
theorem ledger_of_decode {client : ReadingClient σ} {tag : Tag} {blob : Bytes} {location : Location}
    {p m : Playback σ γ} {outcome : Outcome DecodeError Unit} (hempty : p.slot.held = [])
    (hdecode : p.decode client tag blob location = (outcome, m)) :
    ∃ gone, m.session.destroyed.toList = p.session.destroyed.toList ++ gone ∧
      (gone ++ m.slot.held).Perm (client.answer location p.session.clients blob tag).remains := by
  have hperm := (client.answer location p.session.clients blob tag).runOn_perm
    { p.resetSlot.slot with location := location } rfl
  rcases hrun : (client.answer location p.session.clients blob tag).runOn
    { p.resetSlot.slot with location := location } with ⟨ended, next, gone⟩
  rw [hrun] at hperm
  obtain ⟨-, rfl⟩ := Prod.mk.inj (hdecode.symm.trans (p.decode_of_runOn hrun))
  refine ⟨gone, ?_, hperm⟩
  rw [Session.toList_destroyed_destroy]
  show p.resetSlot.session.destroyed.toList ++ gone = _
  rw [toList_destroyed_resetSlot, hempty, List.append_nil]

/-- Playing a record while the slot holds nothing is an episode, and if it comes out well, the slot
holds nothing behind it. -/
theorem episode_playFrame (reader? : Option (ReadingClient σ)) (f : Visitor σ γ) (frame : Frame)
    {p : Playback σ γ} (hempty : p.slot.held = []) :
    (∃ decoding?, Episode reader? f frame p (p.playFrame reader? f frame) decoding?) ∧
      ((p.playFrame reader? f frame).1 = .ok () →
        (p.playFrame reader? f frame).2.slot.held = []) := by
  obtain ⟨location, body⟩ := frame
  cases body with
  | inline view => exact ⟨⟨none, .inline rfl⟩, fun _ => hempty⟩
  | encoded tag blob =>
    cases reader? with
    | none => exact ⟨⟨none, .unread rfl⟩, fun _ => hempty⟩
    | some client =>
      have hdecoded := decoded_playFrame client f location tag blob p
      generalize p.playFrame (some client) f ⟨location, .encoded tag blob⟩ = played
        at hdecoded ⊢
      cases hdecoded with
      | @visited item m q hresult htag hdecode hview hheld hvisit =>
        have hledger := ledger_of_decode hempty hdecode
        rw [hheld] at hledger
        exact ⟨⟨_, .shown rfl htag ⟨hview, hheld, visited_of_decode hdecode, hledger⟩ hvisit⟩,
          fun _ => rfl⟩
      | @gaveUp item m q e hresult htag hdecode hview hheld hvisit =>
        have hledger := ledger_of_decode hempty hdecode
        rw [hheld] at hledger
        exact ⟨⟨_, .gaveUp rfl htag ⟨hview, hheld, visited_of_decode hdecode, hledger⟩ hvisit⟩,
          fun h => absurd h (by simp)⟩
      | @undecodable halt outcome m q hwhy hdecode hq =>
        obtain ⟨gone, hgone, hperm⟩ := ledger_of_decode hempty hdecode
        refine ⟨⟨some (client.answer location p.session.clients blob tag), ?_⟩,
          fun h => absurd h (by simp)⟩
        have hvisited := visited_of_emptied hdecode hq
        rcases hq with rfl | rfl
        · exact .unshown rfl (fun item => hwhy.tag_ne) hvisited hgone hperm
        · have hall : m.resetSlot.session.destroyed.toList =
              p.session.destroyed.toList ++ (gone ++ m.slot.held) := by
            rw [toList_destroyed_resetSlot, hgone, List.append_assoc]
          refine .unshown rfl (fun item => hwhy.tag_ne) hvisited hall ?_
          exact (List.append_nil (gone ++ m.slot.held)).symm ▸ hperm

/-- The decoding of an episode is the reading client's. -/
theorem Episode.comesFrom {frame : Frame} {p : Playback σ γ}
    {played : Outcome DecodeError Unit × Playback σ γ} {decoding? : Option Decoding}
    (h : Episode reader? f frame p played decoding?) :
    ∀ d ∈ decoding?, d.ComesFrom reader? := by
  cases h with
  | inline | unread => exact fun d hd => absurd hd (by simp)
  | shown hclient | gaveUp hclient | unshown hclient =>
    intro d hd
    obtain rfl := Option.some.inj hd
    exact ⟨_, hclient, _, _, _, _, rfl⟩

/-- An episode destroys what is put into the slot, but for what it leaves there. -/
theorem Episode.ledger {frame : Frame} {p : Playback σ γ}
    {played : Outcome DecodeError Unit × Playback σ γ} {decoding? : Option Decoding}
    (h : Episode reader? f frame p played decoding?) (hempty : p.slot.held = []) :
    ∃ gone, played.2.session.destroyed.toList = p.session.destroyed.toList ++ gone ∧
      (gone ++ played.2.slot.held).Perm (decoding?.toList.flatMap Decoding.remains) := by
  cases h with
  | @inline location view p q outcome hvisit =>
    obtain ⟨-, rfl⟩ := Prod.mk.inj hvisit
    refine ⟨[], (List.append_nil _).symm, ?_⟩
    show ([] ++ p.slot.held).Perm _
    rw [hempty]
    exact List.Perm.nil
  | unread hnone =>
    refine ⟨[], (List.append_nil _).symm, ?_⟩
    rw [hempty]
    exact List.Perm.nil
  | @shown location tag blob p m q client item hclient htag hholds hvisit =>
    obtain ⟨-, rfl⟩ := Prod.mk.inj hvisit
    obtain ⟨gone, hgone, hperm⟩ := hholds.ledger
    refine ⟨gone ++ item.remains, ?_, ?_⟩
    · rw [toList_destroyed_resetSlot, ← List.append_assoc, ← hgone, ← hholds.held_eq]
    · rw [Option.toList_some, List.flatMap_singleton]
      exact (List.append_nil (gone ++ item.remains)).symm ▸ hperm
  | @gaveUp location tag blob p m q client item e hclient htag hholds hvisit =>
    obtain ⟨-, rfl⟩ := Prod.mk.inj hvisit
    obtain ⟨gone, hgone, hperm⟩ := hholds.ledger
    refine ⟨gone, hgone, ?_⟩
    rw [Option.toList_some, List.flatMap_singleton]
    exact hholds.held_eq.symm ▸ hperm
  | @unshown location tag blob p q client halt gone hclient hresult hvisited hgone hperm =>
    refine ⟨gone, hgone, ?_⟩
    rw [Option.toList_some, List.flatMap_singleton]
    exact hperm

/-! ## Records in a row -/

/-- The episodes of playing frames in order, up to the first that does not come out well, and the
decodings that were made in them. Whenever a record is played, the slot holds nothing. -/
inductive Episodes (reader? : Option (ReadingClient σ)) (f : Visitor σ γ) :
    List Frame → Playback σ γ → Outcome DecodeError Unit × Playback σ γ → List Decoding → Prop
  | done {p : Playback σ γ} (hempty : p.slot.held = []) : Episodes reader? f [] p (.ok (), p) []
  | goesOn {frame : Frame} {frames : List Frame} {p q : Playback σ γ}
      {ended : Outcome DecodeError Unit × Playback σ γ} {decoding? : Option Decoding}
      {decodings : List Decoding} (hempty : p.slot.held = [])
      (hplay : p.playFrame reader? f frame = (.ok (), q))
      (hepisode : Episode reader? f frame p (.ok (), q) decoding?)
      (hrest : Episodes reader? f frames q ended decodings) :
      Episodes reader? f (frame :: frames) p ended (decoding?.toList ++ decodings)
  | ends {frame : Frame} {p q : Playback σ γ} {halt : Halt DecodeError}
      {decoding? : Option Decoding} (hempty : p.slot.held = [])
      (hplay : p.playFrame reader? f frame = (.error halt, q))
      (hepisode : Episode reader? f frame p (.error halt, q) decoding?) :
      Episodes reader? f [frame] p (.error halt, q) decoding?.toList

namespace Episodes

variable {frames more : List Frame} {p q : Playback σ γ}
  {ended : Outcome DecodeError Unit × Playback σ γ} {decodings later : List Decoding}

theorem held_start (h : Episodes reader? f frames p ended decodings) : p.slot.held = [] := by
  cases h <;> assumption

theorem held_end (h : Episodes reader? f frames p (.ok (), q) decodings) : q.slot.held = [] := by
  generalize hok : ((.ok (), q) : Outcome DecodeError Unit × Playback σ γ) = played at h
  induction h with
  | done hempty =>
    obtain rfl := (Prod.mk.inj hok).2
    exact hempty
  | goesOn hempty hplay hepisode hrest ih => exact ih hok
  | ends hempty hplay hepisode => exact absurd (Prod.mk.inj hok).1 (by simp)

/-- If all records came out well, those behind them are played next. -/
theorem append (h : Episodes reader? f frames p (.ok (), q) decodings)
    (h' : Episodes reader? f more q ended later) :
    Episodes reader? f (frames ++ more) p ended (decodings ++ later) := by
  generalize hok : ((.ok (), q) : Outcome DecodeError Unit × Playback σ γ) = played at h
  induction h with
  | done hempty =>
    obtain rfl := (Prod.mk.inj hok).2
    exact h'
  | goesOn hempty hplay hepisode hrest ih =>
    rw [List.append_assoc]
    exact .goesOn hempty hplay hepisode (ih hok)
  | ends hempty hplay hepisode => exact absurd (Prod.mk.inj hok).1 (by simp)

/-- All decodings are the reading client's. -/
theorem comesFrom (h : Episodes reader? f frames p ended decodings) :
    ∀ d ∈ decodings, d.ComesFrom reader? := by
  induction h with
  | done hempty => exact fun d hd => absurd hd List.not_mem_nil
  | goesOn hempty hplay hepisode hrest ih =>
    intro d hd
    rcases List.mem_append.1 hd with hd | hd
    · exact hepisode.comesFrom d (Option.mem_toList.1 hd)
    · exact ih d hd
  | ends hempty hplay hepisode => exact fun d hd => hepisode.comesFrom d (Option.mem_toList.1 hd)

/-- If the client keeps the slot, what is to be destroyed is all that it puts in. -/
theorem remains_eq (h : Episodes reader? f frames p ended decodings)
    (hkeeps : ∀ client ∈ reader?, client.KeepsSlot) :
    decodings.flatMap Decoding.remains =
      (decodings.flatMap Decoding.taken).flatMap Item.remains := by
  have hall : ∀ d ∈ decodings, d.remains = d.taken.flatMap Item.remains := fun d hd =>
    ((h.comesFrom d hd).keepsSlot hkeeps).remains_eq
  rw [List.flatMap_assoc]
  exact List.flatMap_congr hall

/-- What was put into the slot is destroyed, or still in the slot. -/
theorem ledger (h : Episodes reader? f frames p ended decodings) :
    ∃ gone, ended.2.session.destroyed.toList = p.session.destroyed.toList ++ gone ∧
      (gone ++ ended.2.slot.held).Perm (decodings.flatMap Decoding.remains) := by
  induction h with
  | @done p hempty =>
    refine ⟨[], (List.append_nil _).symm, ?_⟩
    rw [hempty]
    exact List.Perm.nil
  | @goesOn frame frames p q ended decoding? decodings hempty hplay hepisode hrest ih =>
    obtain ⟨gone, hgone, hperm⟩ := hepisode.ledger hempty
    obtain ⟨behind, hbehind, hlater⟩ := ih
    refine ⟨gone ++ behind, ?_, ?_⟩
    · rw [hbehind, hgone, List.append_assoc]
    · rw [hrest.held_start, List.append_nil] at hperm
      rw [List.flatMap_append, List.append_assoc]
      exact hperm.append hlater
  | @ends frame p q halt decoding? hempty hplay hepisode => exact hepisode.ledger hempty

end Episodes

/-- Playing frames goes through the episodes of the first of them, and of all if it comes out well.
-/
theorem episodes_playFrames (reader? : Option (ReadingClient σ)) (f : Visitor σ γ)
    (frames : List Frame) (count : Nat) {p : Playback σ γ} (hempty : p.slot.held = []) :
    let result := p.playFrames reader? f frames count
    ∃ played decodings, played <+: frames ∧
      Episodes reader? f played p (result.1.map fun _ => (), result.2) decodings ∧
      ∀ n, result.1 = .ok n → played = frames := by
  intro result
  induction frames generalizing count p with
  | nil => exact ⟨[], [], List.prefix_rfl, .done hempty, fun n _ => rfl⟩
  | cons frame rest ih =>
    obtain ⟨⟨decoding?, hepisode⟩, hheld⟩ := episode_playFrame reader? f frame hempty
    rcases hplay : p.playFrame reader? f frame with ⟨halt | u, q⟩
    · rw [hplay] at hepisode
      have hresult : result = (.error halt, q) := by
        simp only [result, playFrames, hplay]
      rw [hresult]
      exact ⟨[frame], _, List.cons_prefix_cons.2 ⟨rfl, List.nil_prefix⟩,
        .ends hempty hplay hepisode, fun n h => absurd h (by simp)⟩
    · rw [hplay] at hepisode hheld
      have hresult : result = q.playFrames reader? f rest (count + 1) := by
        simp only [result, playFrames, hplay]
      obtain ⟨played, decodings, hfront, hepisodes, hall⟩ := ih (count + 1) (hheld rfl)
      rw [hresult]
      exact ⟨frame :: played, _, List.cons_prefix_cons.2 ⟨rfl, hfront⟩,
        .goesOn hempty hplay hepisode hepisodes, fun n h => congrArg (frame :: ·) (hall n h)⟩

end Playback

/-- The frames of a segment, as far as they can be read. -/
def SegmentView.frames (v : Vocabulary C) (hasClient : Bool) (view : SegmentView) : List Frame :=
  (Frame.split v hasClient view.id 0 view.data).1

namespace Playback

/-- Playing a segment goes through the episodes of the first of its frames, and of all if it comes
out well. -/
theorem episodes_playSegment (v : Vocabulary C) (reader? : Option (ReadingClient σ))
    (f : Visitor σ γ) (view : SegmentView) {p : Playback σ γ} (hempty : p.slot.held = []) :
    let result := p.playSegment v reader? f view.id view.data
    ∃ played outcome decodings, played <+: view.frames v reader?.isSome ∧
      Episodes reader? f played p (outcome, result.2) decodings ∧
      (∀ n, result.1 = .ok n → outcome = .ok () ∧ played = view.frames v reader?.isSome) ∧
      ∀ halt, outcome = .error halt → result.1 = .error halt := by
  intro result
  have hresult : result = haltedBy (p.playFrames reader? f (view.frames v reader?.isSome) 0)
      (Frame.split v reader?.isSome view.id 0 view.data).2 :=
    p.playRecords_eq v reader? f view.id 0 0 view.data
  obtain ⟨played, decodings, hfront, hepisodes, hall⟩ :=
    episodes_playFrames reader? f (view.frames v reader?.isSome) 0 hempty
  rw [hresult]
  rcases hplayed : p.playFrames reader? f (view.frames v reader?.isSome) 0 with ⟨halt | n, q⟩
  · rw [hplayed] at hepisodes
    refine ⟨played, .error halt, decodings, hfront, hepisodes,
      fun n h => absurd h (by simp [haltedBy]), ?_⟩
    rintro other ⟨⟩
    rfl
  · rw [hplayed] at hepisodes hall
    refine ⟨played, .ok (), decodings, hfront, ?_, fun n h => ⟨rfl, hall _ rfl⟩,
      fun halt h => absurd h (by simp)⟩
    cases (Frame.split v reader?.isSome view.id 0 view.data).2 <;> exact hepisodes

/-- Playing segments goes through the episodes of the first of their frames. What it reports besides
is not part of them. -/
theorem episodes_playViews (v : Vocabulary C) (reader? : Option (ReadingClient σ)) (f : Visitor σ γ)
    (views : List SegmentView) (count : Nat) {p : Playback σ γ} (hempty : p.slot.held = []) :
    let result := p.playViews v reader? f views count
    ∃ played outcome q decodings notices,
      played <+: views.flatMap (SegmentView.frames v reader?.isSome) ∧
      Episodes reader? f played p (outcome, q) decodings ∧
      result.2 = { q with session := { q.session with notices := notices } } ∧
      ∀ halt, outcome = .error halt → result.1 = .error halt := by
  intro result
  induction views generalizing count p with
  | nil =>
    exact ⟨[], .ok (), p, [], p.session.notices, List.prefix_rfl, .done hempty, rfl,
      fun halt h => absurd h (by simp)⟩
  | cons view rest ih =>
    obtain ⟨played, outcome, decodings, hfront, hepisodes, hall, hends⟩ :=
      episodes_playSegment v reader? f view hempty
    rw [List.flatMap_cons]
    rcases hsegment : p.playSegment v reader? f view.id view.data with ⟨(reason | e) | n, q⟩
    · have hresult : result = (.error (.failed reason),
          { q with session := q.session.note (.stopped view.id count reason) }) := by
        simp only [result, playViews, hsegment]
      rw [hsegment] at hepisodes hends
      rw [hresult]
      exact ⟨played, outcome, q, decodings, _, hfront.trans (List.prefix_append _ _), hepisodes,
        rfl, hends⟩
    · have hresult : result = (.error (.fault e), q) := by
        simp only [result, playViews, hsegment]
      rw [hsegment] at hepisodes hends
      rw [hresult]
      exact ⟨played, outcome, q, decodings, q.session.notices,
        hfront.trans (List.prefix_append _ _), hepisodes, rfl, hends⟩
    · have hresult : result = q.playViews v reader? f rest (count + n) := by
        simp only [result, playViews, hsegment]
      rw [hsegment] at hepisodes hall
      obtain ⟨rfl, rfl⟩ := hall n rfl
      obtain ⟨more, ended, last, later, notices, hmore, hrest, hlast, hhalt⟩ :=
        ih (count + n) hepisodes.held_end
      rw [hresult]
      exact ⟨_, ended, last, _, notices, (List.prefix_append_right_inj _).2 hmore,
        hepisodes.append hrest, hlast, hhalt⟩

end Playback

/-- Playing a tape destroys what the reading client puts into the slot, each item once and before
the next record is read, however it ends, and destroys nothing else. What goes with a slot that the
client puts away is left to the client; if it keeps the slot, all that it puts in is destroyed.
Memory stays as it is. -/
theorem Tape.forEach_accounts (tape : Tape σ) (v : Vocabulary C) (f : Visitor σ γ) (start : γ)
    (s : Session σ) :
    let played := tape.forEach v f start s
    ∃ frames outcome q decodings,
      frames <+: (tape.views s.store).flatMap (SegmentView.frames v tape.reader.isSome) ∧
      Playback.Episodes tape.reader f frames ⟨s, .empty, start⟩ (outcome, q) decodings ∧
      (∀ halt, outcome = .error halt → played.1 = .error halt) ∧ played.2.1 = q.visited ∧
      played.2.2.clients = q.session.clients ∧
      played.2.2.destroyed = q.resetSlot.session.destroyed ∧
      (∃ gone, played.2.2.destroyed.toList = s.destroyed.toList ++ gone ∧
        gone.Perm (decodings.flatMap Decoding.remains)) ∧
      ((∀ client ∈ tape.reader, client.KeepsSlot) → decodings.flatMap Decoding.remains =
        (decodings.flatMap Decoding.taken).flatMap Item.remains) ∧
      played.2.2.store = s.store := by
  intro played
  obtain ⟨frames, outcome, q, decodings, notices, hfront, hepisodes, hlast, hends⟩ :=
    Playback.episodes_playViews v tape.reader f (tape.views s.store) 0 (p := ⟨s, .empty, start⟩) rfl
  have hplayed : played.2 = (q.visited, { q.resetSlot.session with notices := notices }) := by
    simp only [played, forEach, hlast]
    rfl
  obtain ⟨gone, hgone, hperm⟩ := hepisodes.ledger
  refine ⟨frames, outcome, q, decodings, hfront, hepisodes, hends, ?_, ?_, ?_,
    ⟨gone ++ q.slot.held, ?_, hperm⟩, hepisodes.remains_eq, (tape.forEach_destroys v f start s).1⟩
  · rw [hplayed]
  · rw [hplayed]
    rfl
  · rw [hplayed]
  · rw [hplayed, ← List.append_assoc, ← hgone]
    exact q.toList_destroyed_resetSlot

/-- A client that puts an item of another tag in the place of the right one: neither is visited, and
both are destroyed. -/
example :
    let client : ReadingClient Tallies := ⟨fun bytes _ _ tallies =>
      (.emplaceAll [Sample.blob bytes, Sample.uniform Sample.trackedKind 8] (.ok ()), tallies)⟩
    let last := Sample.tapeState.run Sample.steps
    let played := (last.tape.setReader (some client)).forEach Sample.coreVocabulary
      (fun _ _ seen => (.ok (), seen + 1)) 0 last.session
    played.1 = .error (.failed (.tagMismatch 11 5)) ∧ played.2.1 = 1 ∧
      played.2.2.destroyed.toList = last.session.destroyed.toList ++
        [Sample.blob [1, 2, 3], Sample.uniform Sample.trackedKind 8] := by
  decide +kernel

end CommandTape
