import LeastAccess.UsageIndex
import Mathlib.Data.List.Induction

/-!
# Readers

Any number of readers go through the lists of a usage index, some of them through the same one. They are
opened, asked for a site and cancelled by their tokens in any order, and each of these events is over before
the next one. `Reading.Follows` is what they keep: a reader has handed out a beginning of its list, and as
long as its token is not cancelled it has the rest of the list left.

* `Reading.Follows.act`, `Reading.follows_play` — one event, and any number of them
* `Reading.AlikeFor.handedOut_filter` — what other readers are asked for does not show
* `Reading.Ended.handedOut_eq_nil` — a reader that has ended stays ended
* `UsageIndex.firstSites_eq_take` — a reader by itself hands out its sites one after the other
* `readers_hand_out_beginnings` — what any reader hands out, whatever happens to it and to others
-/

namespace LeastAccess

/-- What a reader is opened for, with the number of its token. -/
structure Opening where
  part : UsageSection
  id : String
  token : Nat

/-- What can happen to readers. -/
inductive ReadingEvent where
  | opens (opening : Opening)
  /-- A reader is asked for its next site. -/
  | asks (reader : Nat)
  | cancels (token : Nat) (reason : Option String)

namespace ReadingEvent

def opening? : ReadingEvent → Option Opening
  | .opens opening => some opening
  | _ => none

/-- A reader other than the one in question is asked for its next site. -/
def asksAnother (n : Nat) : ReadingEvent → Bool
  | .asks m => m != n
  | _ => false

/-- The readers that are opened, in order. The first one has the number zero. -/
def openings (es : List ReadingEvent) : List Opening := es.filterMap opening?

theorem openings_append (es es' : List ReadingEvent) : openings (es ++ es') = openings es ++ openings es' :=
  List.filterMap_append

theorem openings_singleton (e : ReadingEvent) : openings [e] = e.opening?.toList := by
  cases e <;> rfl

end ReadingEvent

namespace Reading

variable {index : UsageIndex} {r r' : Reading} {n m token : Nat} {rest sites handed : List UsageSite}

/-- The readers after an event. -/
def act (index : UsageIndex) (r : Reading) : ReadingEvent → Reading
  | .opens o => r.openReader index o.part o.id o.token
  | .asks n => (r.request n).2
  | .cancels token reason => r.cancel token reason

/-- The readers after some events. -/
def play (index : UsageIndex) (r : Reading) (es : List ReadingEvent) : Reading := es.foldl (act index) r

/-- The site that a reader hands out in an event. -/
def handsOut? (r : Reading) (n : Nat) : ReadingEvent → Option UsageSite
  | .asks m => if m = n then (r.request n).1 else none
  | _ => none

/-- The sites that a reader hands out in the course of some events. -/
def handedOut (index : UsageIndex) (n : Nat) : Reading → List ReadingEvent → List UsageSite
  | _, [] => []
  | r, e :: es => (r.handsOut? n e).toList ++ handedOut index n (r.act index e) es

theorem play_append (es es' : List ReadingEvent) :
    r.play index (es ++ es') = (r.play index es).play index es' := List.foldl_append

theorem handedOut_append (es es' : List ReadingEvent) :
    handedOut index n r (es ++ es') = handedOut index n r es ++ handedOut index n (r.play index es) es' := by
  induction es generalizing r with
  | nil => rfl
  | cons e es ih =>
    rw [List.cons_append, handedOut, handedOut, ih, List.append_assoc]
    rfl

/-! ## One request -/

/-- A reader whose token is cancelled hands out nothing, and the other ones what comes next. -/
theorem request_of_reader (h : r.readers[n]? = some ⟨rest, token⟩) : r.request n =
    if (r.tokens token).isCancelled then (none, { r with readers := r.readers.set n ⟨[], token⟩ })
    else (rest.head?, { r with readers := r.readers.set n ⟨rest.tail, token⟩ }) := by
  rw [request, h]
  cases hc : (r.tokens token).isCancelled with
  | true => simp [hc]
  | false => cases rest <;> simp [hc, nextSite]

theorem request_of_no_reader (h : r.readers[n]? = none) : r.request n = (none, r) := by
  rw [request, h]

theorem request_cases (r : Reading) (n : Nat) :
    r.request n = (none, r) ∨
      ∃ site? reader, r.request n = (site?, { r with readers := r.readers.set n reader }) := by
  cases h : r.readers[n]? with
  | none => exact Or.inl (request_of_no_reader h)
  | some reader =>
    right
    rw [request_of_reader h]
    split <;> exact ⟨_, _, rfl⟩

@[simp] theorem tokens_request (r : Reading) (n : Nat) : (r.request n).2.tokens = r.tokens := by
  rcases r.request_cases n with h | ⟨_, _, h⟩ <;> rw [h]

@[simp] theorem length_request (r : Reading) (n : Nat) :
    (r.request n).2.readers.length = r.readers.length := by
  rcases r.request_cases n with h | ⟨_, _, h⟩ <;> simp [h]

/-- A request leaves all other readers as they are. -/
theorem getElem?_request_of_ne (r : Reading) (h : m ≠ n) :
    (r.request m).2.readers[n]? = r.readers[n]? := by
  rcases r.request_cases m with hm | ⟨_, _, hm⟩ <;> simp [hm, h]

/-! ## One event -/

theorem length_act (r : Reading) (e : ReadingEvent) :
    (r.act index e).readers.length = r.readers.length + e.opening?.toList.length := by
  cases e <;> simp [act, openReader, cancel, ReadingEvent.opening?]

/-- As many readers are there as were opened. -/
theorem length_play (r : Reading) (es : List ReadingEvent) :
    (r.play index es).readers.length = r.readers.length + (ReadingEvent.openings es).length := by
  induction es using List.reverseRecOn with
  | nil => rfl
  | append_singleton es e ih =>
    rw [play_append, ReadingEvent.openings_append, ReadingEvent.openings_singleton, List.length_append,
      ← Nat.add_assoc, ← ih]
    exact length_act _ e

/-- Only a request to itself changes a reader. -/
theorem getElem?_act (e : ReadingEvent) (hn : n < r.readers.length) (he : e ≠ .asks n) :
    (r.act index e).readers[n]? = r.readers[n]? := by
  cases e with
  | opens o => exact List.getElem?_append_left hn
  | asks m => exact r.getElem?_request_of_ne fun hm => he (hm ▸ rfl)
  | cancels t reason => rfl

/-- Only its cancellation changes a token. -/
theorem tokens_act_of_ne {e : ReadingEvent} (he : ∀ reason, e ≠ .cancels token reason) :
    (r.act index e).tokens token = r.tokens token := by
  cases e with
  | opens o => rfl
  | asks m => exact congrFun (r.tokens_request m) token
  | cancels t reason => exact if_neg fun ht => he reason (by rw [ht])

theorem tokens_act_cancels (r : Reading) (token : Nat) (reason : Option String) :
    (r.act index (.cancels token reason)).tokens token = (r.tokens token).cancel reason := if_pos rfl

theorem isCancelled_act (e : ReadingEvent) (h : (r.tokens token).isCancelled = true) :
    ((r.act index e).tokens token).isCancelled = true := by
  by_cases he : ∃ reason, e = .cancels token reason
  · obtain ⟨reason, rfl⟩ := he
    rw [tokens_act_cancels]
    exact Token.isCancelled_cancel reason h
  · rw [tokens_act_of_ne fun reason heq => he ⟨reason, heq⟩]
    exact h

/-! ## What a reader has handed out -/

/-- A reader has handed out the beginning of some sites, and as long as its token is not cancelled, it has the
other ones left. -/
structure Follows (r : Reading) (n token : Nat) (sites handed : List UsageSite) : Prop where
  handed_prefix : handed <+: sites
  reader : ∃ rest, r.readers[n]? = some ⟨rest, token⟩ ∧
    ((r.tokens token).isCancelled = true ∨ handed ++ rest = sites)

/-- A new reader has handed out nothing. -/
theorem follows_openReader (r : Reading) (o : Opening) :
    (r.act index (.opens o)).Follows r.readers.length o.token (index.sites o.part o.id) [] where
  handed_prefix := List.nil_prefix
  reader := ⟨index.sites o.part o.id, by simp [act, openReader], Or.inr rfl⟩

namespace Follows

theorem lt_length (h : r.Follows n token sites handed) : n < r.readers.length := by
  obtain ⟨_, hreader, -⟩ := h.reader
  exact (List.getElem?_eq_some_iff.mp hreader).1

/-- The next site is the one behind those that were handed out. -/
theorem request_fst (h : r.Follows n token sites handed) : (r.request n).1 =
    if (r.tokens token).isCancelled then none else sites[handed.length]? := by
  obtain ⟨rest, hreader, hrest⟩ := h.reader
  rw [request_of_reader hreader]
  split
  · rfl
  · next hc =>
    rw [← hrest.resolve_left hc, List.getElem?_append_right (Nat.le_refl _), Nat.sub_self,
      List.head?_eq_getElem?]

/-- A reader that is asked for its next site goes on to follow its sites. -/
theorem request (h : r.Follows n token sites handed) :
    (r.request n).2.Follows n token sites (handed ++ (r.request n).1.toList) := by
  obtain ⟨rest, hreader, hrest⟩ := h.reader
  have hset (left : List UsageSite) : (r.readers.set n ⟨left, token⟩)[n]? = some ⟨left, token⟩ :=
    List.getElem?_set_self h.lt_length
  rw [request_of_reader hreader]
  split
  · next hc => exact ⟨by simpa using h.handed_prefix, [], hset [], Or.inl hc⟩
  · next hc =>
    have hsites := hrest.resolve_left hc
    have hsplit : handed ++ rest.head?.toList ++ rest.tail = sites := by
      rw [← hsites, List.append_assoc]
      cases rest <;> rfl
    exact ⟨⟨rest.tail, hsplit⟩, rest.tail, hset rest.tail, Or.inr hsplit⟩

/-- Whatever happens, a reader goes on to follow its sites. -/
theorem act (h : r.Follows n token sites handed) (e : ReadingEvent) :
    (r.act index e).Follows n token sites (handed ++ (r.handsOut? n e).toList) := by
  by_cases he : e = .asks n
  · subst he
    rw [handsOut?, if_pos rfl]
    exact h.request
  · have hnone : r.handsOut? n e = none := by
      cases e with
      | opens o => rfl
      | asks m => exact if_neg fun hm => he (by rw [hm])
      | cancels t reason => rfl
    obtain ⟨rest, hreader, hrest⟩ := h.reader
    rw [hnone, Option.toList_none, List.append_nil]
    exact ⟨h.handed_prefix, rest, (getElem?_act e h.lt_length he).trans hreader,
      hrest.imp_left (isCancelled_act e)⟩

end Follows

/-- A reader that is not there yet hands out nothing. -/
theorem handedOut_eq_nil (es : List ReadingEvent)
    (h : r.readers.length + (ReadingEvent.openings es).length ≤ n) : handedOut index n r es = [] := by
  induction es using List.reverseRecOn with
  | nil => rfl
  | append_singleton es e ih =>
    rw [ReadingEvent.openings_append, List.length_append, ← Nat.add_assoc] at h
    have hbefore := Nat.le_of_add_right_le h
    have hnone : (r.play index es).handsOut? n e = none := by
      cases e with
      | opens o => rfl
      | asks m =>
        rw [handsOut?]
        split
        · rw [request_of_no_reader (List.getElem?_eq_none (r.length_play es ▸ hbefore))]
        · rfl
      | cancels t reason => rfl
    rw [handedOut_append, ih hbefore, handedOut, hnone]
    rfl

/-- **Readers follow their sites**, whatever happens to them and to others. -/
theorem follows_play {es : List ReadingEvent} {o : Opening} (hstart : r.readers = [])
    (h : (ReadingEvent.openings es)[n]? = some o) :
    (r.play index es).Follows n o.token (index.sites o.part o.id) (handedOut index n r es) := by
  induction es using List.reverseRecOn with
  | nil => cases h
  | append_singleton es e ih =>
    have hlength : (r.play index es).readers.length = (ReadingEvent.openings es).length := by
      rw [length_play, hstart, List.length_nil, Nat.zero_add]
    rw [ReadingEvent.openings_append, ReadingEvent.openings_singleton] at h
    rw [play_append, handedOut_append, handedOut, handedOut, List.append_nil]
    by_cases hn : n < (ReadingEvent.openings es).length
    · rw [List.getElem?_append_left hn] at h
      exact (ih h).act e
    · -- the reader is opened by the last event
      cases e with
      | opens o' =>
        rw [List.getElem?_append_right (Nat.le_of_not_lt hn), ReadingEvent.opening?, Option.toList_some,
          List.getElem?_singleton] at h
        split at h
        · next hzero =>
          have heq : n = (r.play index es).readers.length := by omega
          have hnone : handedOut index n r es = [] :=
            handedOut_eq_nil es (by rw [hstart, List.length_nil, Nat.zero_add]; omega)
          rw [hnone, heq, ← Option.some.inj h]
          exact follows_openReader _ o'
        · cases h
      | asks m => simp [ReadingEvent.opening?, hn] at h
      | cancels t reason => simp [ReadingEvent.opening?, hn] at h

/-! ## Tokens -/

/-- A token is as it was, or as it is after one of its cancellations, which is the first one. -/
theorem tokens_play (index : UsageIndex) (r : Reading) (es : List ReadingEvent) (token : Nat) :
    ((∀ reason, ReadingEvent.cancels token reason ∉ es) ∧ (r.play index es).tokens token = r.tokens token) ∨
      ∃ reason, ReadingEvent.cancels token reason ∈ es ∧
        (r.play index es).tokens token = (r.tokens token).cancel reason := by
  induction es using List.reverseRecOn with
  | nil => exact Or.inl ⟨fun _ => List.not_mem_nil, rfl⟩
  | append_singleton es e ih =>
    have hplay : r.play index (es ++ [e]) = (r.play index es).act index e := play_append es [e]
    rw [hplay]
    by_cases he : ∃ reason, e = .cancels token reason
    · obtain ⟨reason, rfl⟩ := he
      rw [tokens_act_cancels]
      right
      rcases ih with ⟨-, hsame⟩ | ⟨first, hmem, hfirst⟩
      · exact ⟨reason, List.mem_append_right _ List.mem_cons_self, by rw [hsame]⟩
      · exact ⟨first, List.mem_append_left _ hmem, by rw [hfirst, Token.cancel_cancel]⟩
    · rw [tokens_act_of_ne fun reason heq => he ⟨reason, heq⟩]
      refine ih.imp (fun ⟨hnot, hsame⟩ => ⟨fun reason hmem => ?_, hsame⟩)
        fun ⟨reason, hmem, hfirst⟩ => ⟨reason, List.mem_append_left _ hmem, hfirst⟩
      rcases List.mem_append.mp hmem with hmem | hmem
      · exact hnot reason hmem
      · exact he ⟨reason, (List.mem_singleton.mp hmem).symm⟩

/-- A token is cancelled if it was so at the start, or if it is one that can be cancelled and was. -/
theorem isCancelled_play (r : Reading) (es : List ReadingEvent) (token : Nat) :
    ((r.play index es).tokens token).isCancelled = true ↔ (r.tokens token).isCancelled = true ∨
      r.tokens token = .live ∧ ∃ reason, ReadingEvent.cancels token reason ∈ es := by
  rcases r.tokens_play index es token with ⟨hnot, hsame⟩ | ⟨reason, hmem, hfirst⟩
  · rw [hsame]
    exact ⟨Or.inl, fun h => h.resolve_right fun ⟨_, reason, hmem⟩ => hnot reason hmem⟩
  · have hexists : ∃ reason, ReadingEvent.cancels token reason ∈ es := ⟨reason, hmem⟩
    rw [hfirst]
    cases r.tokens token <;> simp [Token.isCancelled, Token.cancel, hexists]

/-! ## Other readers -/

/-- Two collections of readers that a reader cannot tell apart. -/
structure AlikeFor (n : Nat) (r r' : Reading) : Prop where
  length : r.readers.length = r'.readers.length
  reader : r.readers[n]? = r'.readers[n]?
  tokens : r.tokens = r'.tokens

namespace AlikeFor

/-- What another reader is asked for cannot be told. -/
theorem of_asksAnother (r : Reading) {e : ReadingEvent} (he : e.asksAnother n = true) :
    AlikeFor n (r.act index e) r := by
  cases e with
  | asks m =>
    have hm : m ≠ n := by simpa [ReadingEvent.asksAnother] using he
    exact ⟨r.length_request m, r.getElem?_request_of_ne hm, r.tokens_request m⟩
  | opens o => cases he
  | cancels t reason => cases he

theorem request_fst (h : AlikeFor n r r') : (r.request n).1 = (r'.request n).1 := by
  cases hr : r.readers[n]? with
  | none => rw [request_of_no_reader hr, request_of_no_reader (h.reader ▸ hr)]
  | some reader =>
    rw [request_of_reader hr, request_of_reader (h.reader ▸ hr), h.tokens]
    split <;> rfl

theorem request (h : AlikeFor n r r') (m : Nat) : AlikeFor n (r.request m).2 (r'.request m).2 where
  length := by rw [length_request, length_request, h.length]
  tokens := by rw [tokens_request, tokens_request, h.tokens]
  reader := by
    by_cases hm : m = n
    · subst hm
      cases hr : r.readers[m]? with
      | none => rw [request_of_no_reader hr, request_of_no_reader (h.reader ▸ hr), h.reader]
      | some reader =>
        rw [request_of_reader hr, request_of_reader (h.reader ▸ hr), h.tokens]
        split <;> simp [List.getElem?_set, h.length]
    · rw [getElem?_request_of_ne r hm, getElem?_request_of_ne r' hm, h.reader]

/-- Nor can it be told when the same happens to both. -/
theorem act (h : AlikeFor n r r') (e : ReadingEvent) : AlikeFor n (r.act index e) (r'.act index e) := by
  cases e with
  | opens o =>
    refine ⟨by simp [Reading.act, openReader, h.length], ?_, h.tokens⟩
    simp only [Reading.act, openReader, List.getElem?_append, h.length, h.reader]
  | asks m => exact h.request m
  | cancels t reason => exact ⟨h.length, h.reader, by simp only [Reading.act, cancel, h.tokens]⟩

theorem handsOut?_eq (h : AlikeFor n r r') (e : ReadingEvent) : r.handsOut? n e = r'.handsOut? n e := by
  cases e with
  | opens o => rfl
  | asks m => rw [handsOut?, handsOut?, h.request_fst]
  | cancels t reason => rfl

/-- Nor by what is handed out when others are not asked for anything. -/
theorem handedOut_filter (h : AlikeFor n r r') (es : List ReadingEvent) :
    handedOut index n r (es.filter fun e => !e.asksAnother n) = handedOut index n r' es := by
  induction es generalizing r r' with
  | nil => rfl
  | cons e es ih =>
    cases he : e.asksAnother n with
    | true =>
      have hnone : r'.handsOut? n e = none := by
        cases e with
        | asks m => exact if_neg (by simpa [ReadingEvent.asksAnother] using he)
        | opens o => cases he
        | cancels t reason => cases he
      rw [List.filter_cons_of_neg (by simp [he]), handedOut, hnone]
      exact ih ⟨h.length.trans (of_asksAnother r' he).length.symm,
        h.reader.trans (of_asksAnother r' he).reader.symm, h.tokens.trans (of_asksAnother r' he).tokens.symm⟩
    | false =>
      rw [List.filter_cons_of_pos (by simp [he]), handedOut, handedOut, h.handsOut?_eq, ih (h.act e)]

end AlikeFor

/-! ## The end -/

/-- A reader has no site left. -/
def Ended (r : Reading) (n : Nat) : Prop := ∃ token, r.readers[n]? = some ⟨[], token⟩

theorem Ended.request_fst (h : r.Ended n) : (r.request n).1 = none := by
  obtain ⟨token, hreader⟩ := h
  rw [request_of_reader hreader]
  split <;> rfl

/-- A reader that hands out nothing when it is asked has ended. -/
theorem ended_request (hn : n < r.readers.length) (h : (r.request n).1 = none) : (r.request n).2.Ended n := by
  obtain ⟨⟨rest, token⟩, hreader⟩ : ∃ reader, r.readers[n]? = some reader :=
    ⟨_, List.getElem?_eq_getElem hn⟩
  refine ⟨token, ?_⟩
  rw [request_of_reader hreader] at h ⊢
  split
  · exact List.getElem?_set_self hn
  · next hc =>
    rw [if_neg hc, List.head?_eq_none_iff] at h
    rw [h]
    exact List.getElem?_set_self hn

/-- A reader that has ended stays ended. -/
theorem Ended.act (h : r.Ended n) (e : ReadingEvent) : (r.act index e).Ended n := by
  have hn : n < r.readers.length := by
    obtain ⟨_, hreader⟩ := h
    exact (List.getElem?_eq_some_iff.mp hreader).1
  by_cases he : e = .asks n
  · subst he
    exact ended_request hn h.request_fst
  · obtain ⟨token, hreader⟩ := h
    exact ⟨token, (getElem?_act e hn he).trans hreader⟩

theorem Ended.handedOut_eq_nil (h : r.Ended n) (es : List ReadingEvent) : handedOut index n r es = [] := by
  induction es generalizing r with
  | nil => rfl
  | cons e es ih =>
    have hnone : r.handsOut? n e = none := by
      cases e with
      | opens o => rfl
      | asks m =>
        rw [handsOut?, h.request_fst, ite_self]
      | cancels t reason => rfl
    rw [handedOut, hnone, ih (h.act e)]
    rfl

end Reading

/-! ## A reader by itself -/

/-- A reader that is asked again and again hands out its sites one after the other. -/
theorem Reading.Follows.handedOut_replicate {index : UsageIndex} {r : Reading} {n token : Nat}
    {sites handed : List UsageSite} (h : r.Follows n token sites handed)
    (hlive : (r.tokens token).isCancelled = false) (times : Nat) :
    handed ++ Reading.handedOut index n r (List.replicate times (.asks n)) =
      sites.take (handed.length + times) := by
  induction times generalizing r handed with
  | zero =>
    rw [List.replicate_zero, Reading.handedOut, List.append_nil, Nat.add_zero]
    exact List.prefix_iff_eq_take.mp h.handed_prefix
  | succ times ih =>
    have hnext : r.handsOut? n (.asks n) = sites[handed.length]? := by
      rw [Reading.handsOut?, if_pos rfl, h.request_fst, hlive]
      rfl
    have hsame : (r.act index (.asks n)).tokens token = r.tokens token := Reading.tokens_act_of_ne nofun
    have hrest := ih (h.act (.asks n)) (hsame ▸ hlive)
    rw [List.replicate_succ, Reading.handedOut, ← List.append_assoc, hrest, hnext]
    cases hsite : sites[handed.length]? with
    | none =>
      have hlength := List.getElem?_eq_none_iff.mp hsite
      rw [Option.toList_none, List.append_nil, List.take_of_length_le (by omega),
        List.take_of_length_le (by omega)]
    | some site =>
      rw [Option.toList_some, List.length_append, List.length_singleton, Nat.add_assoc, Nat.add_comm 1]

/-- What a reader hands out that is opened with a token and asked for a site some times. -/
def UsageIndex.firstSites (index : UsageIndex) (part : UsageSection) (id : String) (token : Token)
    (times : Nat) : List UsageSite :=
  Reading.handedOut index 0 { tokens := fun _ => token } (.opens ⟨part, id, 0⟩ :: List.replicate times (.asks 0))

theorem UsageIndex.firstSites_eq_take (index : UsageIndex) (part : UsageSection) (id : String) {token : Token}
    (hlive : token.isCancelled = false) (times : Nat) :
    index.firstSites part id token times = (index.sites part id).take times := by
  let start : Reading := { tokens := fun _ => token }
  let opened : Reading := start.act index (.opens ⟨part, id, 0⟩)
  have hopened : opened.Follows 0 0 (index.sites part id) [] := Reading.follows_openReader start ⟨part, id, 0⟩
  calc index.firstSites part id token times
    _ = Reading.handedOut index 0 opened (List.replicate times (.asks 0)) := rfl
    _ = (index.sites part id).take (0 + times) := hopened.handedOut_replicate hlive times
    _ = (index.sites part id).take times := by rw [Nat.zero_add]

/-- **Readers hand out beginnings of their lists, each on its own, until they are cancelled.** After any events,
what a reader has handed out is a beginning of the list stored for its id and section. It is the same if no other
reader was asked for anything. Asked now, the reader hands out the next site of the list if there is one and
its token is not cancelled, and nothing otherwise. Its token is cancelled if it was so at the start, or if it
can be cancelled and one of the events did so. Once the reader has handed out nothing, it never will again. -/
theorem readers_hand_out_beginnings (index : UsageIndex) (tokens : Nat → Token) (es : List ReadingEvent)
    (n : Nat) (o : Opening) (h : (ReadingEvent.openings es)[n]? = some o) :
    let start : Reading := { tokens }
    let now := start.play index es
    let handed := Reading.handedOut index n start
    let sites := index.sites o.part o.id
    handed es <+: sites ∧
    handed (es.filter fun e => !e.asksAnother n) = handed es ∧
    (now.request n).1 = (if (now.tokens o.token).isCancelled then none else sites[(handed es).length]?) ∧
    ((now.tokens o.token).isCancelled = true ↔ (tokens o.token).isCancelled = true ∨
      tokens o.token = .live ∧ ∃ reason, ReadingEvent.cancels o.token reason ∈ es) ∧
    ((now.request n).1 = none → ∀ later, handed (es ++ .asks n :: later) = handed es) := by
  intro start now handed sites
  have hfollows : now.Follows n o.token sites (handed es) := Reading.follows_play rfl h
  refine ⟨hfollows.handed_prefix, ?_, hfollows.request_fst, Reading.isCancelled_play start es o.token, ?_⟩
  · exact Reading.AlikeFor.handedOut_filter ⟨rfl, rfl, rfl⟩ es
  · intro hnone later
    have hended : (now.act index (.asks n)).Ended n := Reading.ended_request hfollows.lt_length hnone
    have hasked : now.handsOut? n (.asks n) = none := (if_pos rfl).trans hnone
    calc handed (es ++ .asks n :: later)
      _ = handed es ++ Reading.handedOut index n now (.asks n :: later) := Reading.handedOut_append es _
      _ = handed es ++ ([] ++ []) := by rw [Reading.handedOut, hasked, hended.handedOut_eq_nil]; rfl
      _ = handed es := List.append_nil _

/-- Two readers of one list, of which one is cancelled before the last site. -/
theorem cancelled_reader_and_its_sibling :
    let a : UsageSite := { file := "A.java" }
    let b : UsageSite := { file := "B.java" }
    let c : UsageSite := { file := "C.java" }
    let index : UsageIndex := { ordinary := [("T", [a, b, c])] }
    let start : Reading := { tokens := fun _ => .live }
    let es : List ReadingEvent :=
      [.opens ⟨.ordinary, "T", 0⟩, .opens ⟨.ordinary, "T", 1⟩, .asks 0, .asks 1, .asks 0, .cancels 0 none]
    let now := start.play index es
    (ReadingEvent.openings es)[0]? = some ⟨.ordinary, "T", 0⟩ ∧
      (ReadingEvent.openings es)[1]? = some ⟨.ordinary, "T", 1⟩ ∧
      Reading.handedOut index 0 start es = [a, b] ∧ [a, b] <+: [a, b, c] ∧
      Reading.handedOut index 0 start (es.filter fun e => !e.asksAnother 0) = [a, b] ∧
      (now.tokens 0).isCancelled = true ∧ (now.request 0).1 = none ∧
      (∀ later, Reading.handedOut index 0 start (es ++ .asks 0 :: later) = [a, b]) ∧
      (now.tokens 1).isCancelled = false ∧ (now.request 1).1 = some b := by
  intro a b c index start es now
  obtain ⟨hbeginning, hfilter, hnext, hcancelled, hended⟩ :=
    readers_hand_out_beginnings index (fun _ => .live) es 0 ⟨.ordinary, "T", 0⟩ rfl
  obtain ⟨-, -, hsibling, hlive, -⟩ :=
    readers_hand_out_beginnings index (fun _ => .live) es 1 ⟨.ordinary, "T", 1⟩ rfl
  have hzero : (now.tokens 0).isCancelled = true := hcancelled.mpr (Or.inr ⟨rfl, none, by simp [es]⟩)
  have hone : (now.tokens 1).isCancelled = false := by
    rw [Bool.eq_false_iff, ne_eq, hlive]
    simp [es, Token.isCancelled]
  have hnone : (now.request 0).1 = none := hnext.trans (if_pos hzero)
  exact ⟨rfl, rfl, rfl, hbeginning, hfilter, hzero, hnone, hended hnone, hone,
    hsibling.trans (if_neg (by rw [hone]; exact Bool.false_ne_true))⟩

end LeastAccess
