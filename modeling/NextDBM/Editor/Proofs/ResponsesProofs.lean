import NextDBM.Editor.Responses
import NextDBM.Library.JsonReading

/-!
# When every response reaches its consumer

The messages that the server sends make up the stream, whatever the ticks do. The page recovers the
responses from them when each message holds parts of one response only (`responses_delivered_iff`):
a proper beginning of an object's text is no JSON text, so what is collected is complete when its last
message has come, and not before.
-/

namespace NextDBM.DBMHandler

open Json

variable {c d t u : List Placed} {b cs g : List (List Placed)} {es : List Event} {p : Page}
  {r : Response} {rs : List Response} {n : Nat}

/-! ## Texts with places -/

theorem codes_append (t u : List Placed) : codes (t ++ u) = codes t ++ codes u := List.map_append

theorem codes_length (t : List Placed) : (codes t).length = t.length := List.length_map ..

theorem place_append (n : Nat) (t u : List Nat) :
    place n (t ++ u) = place n t ++ place (n + t.length) u := by
  induction t generalizing n with
  | nil => rfl
  | cons c t ih =>
    rw [List.cons_append, place, ih, place, List.length_cons, Nat.add_assoc, Nat.add_comm 1]
    rfl

theorem codes_place (n : Nat) (t : List Nat) : codes (place n t) = t := by
  induction t generalizing n with
  | nil => rfl
  | cons c t ih => rw [place, codes, List.map_cons, ← codes, ih]

theorem place_length (n : Nat) (t : List Nat) : (place n t).length = t.length := by
  rw [← codes_length, codes_place]

/-- The buffer keeps the places of the characters. -/
theorem written_fst (u : Placed) : (written u).1 = u.1 := by
  unfold written
  split <;> rfl

/-- A text whose characters are as written is the placed text. -/
theorem map_written_eq {s : List Nat} (h : codes ((place n s).map written) = s) :
    (place n s).map written = place n s := by
  induction s generalizing n with
  | nil => rfl
  | cons c s ih =>
    rw [place, List.map_cons, codes, List.map_cons, List.cons.injEq] at h
    obtain ⟨hcode, hrest⟩ := h
    rw [place, List.map_cons, ih hrest]
    exact congrArg (· :: _) (Prod.ext (written_fst _) hcode)

/-! ## The server -/

/-- The messages that are sent up to a last tick are the buffer and the characters that follow, in
order; none of them is empty. -/
theorem writeToWebsocket_flatten (buf : List Placed) (es : List Event) :
    (writeToWebsocket buf (es ++ [.tick])).flatten =
        buf ++ (es.filterMap Event.unit?).map written ∧
      ∀ data ∈ writeToWebsocket buf (es ++ [.tick]), data ≠ [] := by
  induction es generalizing buf with
  | nil =>
    rw [List.nil_append, writeToWebsocket]
    split
    next hbuf => exact ⟨hbuf ▸ rfl, fun _ h => absurd h List.not_mem_nil⟩
    next hbuf => exact ⟨rfl, fun data h => List.mem_singleton.mp h ▸ hbuf⟩
  | cons e es ih =>
    cases e with
    | data u =>
      obtain ⟨hflat, hne⟩ := ih (buf ++ [written u])
      refine ⟨?_, hne⟩
      rw [List.cons_append, writeToWebsocket, hflat, List.append_assoc]
      rfl
    | tick =>
      rw [List.cons_append, writeToWebsocket]
      split
      next hbuf => exact ih buf
      next hbuf =>
        obtain ⟨hflat, hne⟩ := ih []
        refine ⟨?_, List.forall_mem_cons.mpr ⟨hbuf, hne⟩⟩
        rw [List.flatten_cons, hflat]
        rfl

theorem Turns.messages_flatten (turns : Turns rs) :
    turns.messages.flatten = (place 0 (stream rs)).map written := by
  obtain ⟨hflat, -⟩ := writeToWebsocket_flatten [] turns.events
  rw [turns.all] at hflat
  exact hflat

theorem Turns.messages_ne_nil (turns : Turns rs) : ∀ data ∈ turns.messages, data ≠ [] :=
  (writeToWebsocket_flatten [] turns.events).2

/-! ## Texts of objects -/

theorem getLast?_of_value {t : List Nat} {ms : List (List Nat × Json)} (h : Value t (.obj ms)) :
    t.getLast? = some 125 := by
  cases h with
  | empty hw => exact List.getLast?_concat
  | obj => exact List.getLast?_concat

theorem Response.parse_text (r : Response) : parse r.text = some (.obj r.members) := by
  have hblank : Blank [] := fun c hc => absurd hc List.not_mem_nil
  have h := parse_of_value hblank r.value hblank
  rw [List.nil_append, List.append_nil] at h
  exact h

theorem Response.text_ne_nil (r : Response) : r.text ≠ [] := by
  intro h
  have hparse := r.parse_text
  rw [h] at hparse
  cases hparse

/-- A proper beginning of a response is no JSON text. -/
theorem Response.parse_beginning (r : Response) {t u : List Nat} (h : t ++ u = r.text) (hu : u ≠ []) :
    parse t = none := by
  cases ht : parse t with
  | none => rfl
  | some v =>
    obtain ⟨-, hblank⟩ := parse_prefix ht (h ▸ r.parse_text) id
    have hlast := getLast?_of_value r.value
    rw [← h, List.getLast?_append_of_ne_nil _ hu] at hlast
    have hbrace := hblank 125 (List.mem_of_getLast? hlast)
    cases hbrace

/-! ## The page -/

theorem deliveries_cons (p : Page) (data : List Placed) (rest : List (List Placed)) :
    p.deliveries (data :: rest) =
      (p.webSocketOnData data).2 ++ (p.webSocketOnData data).1.deliveries rest := rfl

/-- A message that passes is collected. -/
theorem webSocketOnData_of_passes (h : Passes d) : p.webSocketOnData d = p.collect d := by
  unfold Page.webSocketOnData
  cases hparse : parse (codes d) with
  | none => rfl
  | some v =>
    obtain ⟨hthrows, hconsumer⟩ := h v hparse
    simp [hthrows, hconsumer]

/-- What a message is: it is lost, it is an error, or it passes. -/
theorem message_cases (p : Page) (d : List Placed) :
    p.webSocketOnData d = (p, []) ∨
    (∃ v, parse (codes d) = some v ∧ throws v = false ∧ consumer v ≠ .setJsonObject ∧
      p.webSocketOnData d = (p, [(consumer v, d)])) ∨
    Passes d := by
  cases hparse : parse (codes d) with
  | none => exact .inr (.inr fun v hv => by rw [hparse] at hv; cases hv)
  | some v =>
    by_cases hthrows : throws v = true
    · refine .inl ?_
      simp [Page.webSocketOnData, hparse, hthrows]
    · have hthrows' : throws v = false := eq_false_of_ne_true hthrows
      by_cases hconsumer : consumer v = .setJsonObject
      · refine .inr (.inr fun v' hv' => ?_)
        rw [hparse, Option.some.injEq] at hv'
        exact hv' ▸ ⟨hthrows', hconsumer⟩
      · refine .inr (.inl ⟨v, rfl, hthrows', hconsumer, ?_⟩)
        simp [Page.webSocketOnData, hparse, hthrows', hconsumer]

/-- What collecting a message comes to: the buffer is complete, or given up, or kept. -/
theorem collect_cases (p : Page) (d : List Placed) :
    ((parse (codes (p.buffer ++ d))).isSome = true ∧
      p.collect d = ({}, [(.setJsonObject, p.buffer ++ d)])) ∨
    (5 ≤ p.attempts ∧ p.collect d = ({}, [])) ∨
    (p.attempts < 5 ∧ p.collect d = ({ buffer := p.buffer ++ d, attempts := p.attempts + 1 }, [])) := by
  by_cases hparse : (parse (codes (p.buffer ++ d))).isSome = true
  · exact .inl ⟨hparse, by simp [Page.collect, hparse]⟩
  · by_cases hattempts : p.attempts + 1 > 5
    · exact .inr (.inl ⟨by omega, by simp [Page.collect, hparse, hattempts]⟩)
    · exact .inr (.inr ⟨by omega, by simp [Page.collect, hparse, hattempts]⟩)

/-- How many characters are delivered. -/
def delivered (ds : List Delivery) : Nat := (ds.map fun d => d.2.length).sum

theorem delivered_append (ds ds' : List Delivery) :
    delivered (ds ++ ds') = delivered ds + delivered ds' := by
  simp [delivered]

/-- A message delivers no more than the buffer holds and the message brings, less what is kept. -/
theorem delivered_webSocketOnData (p : Page) (d : List Placed) :
    delivered (p.webSocketOnData d).2 + (p.webSocketOnData d).1.buffer.length ≤
      p.buffer.length + d.length := by
  have hnone : delivered [] = 0 := rfl
  have hone (x : Consumer) (t : List Placed) : delivered [(x, t)] = t.length := by simp [delivered]
  rcases message_cases p d with h | ⟨v, -, -, -, h⟩ | h
  · rw [h, hnone]
    show 0 + p.buffer.length ≤ _
    omega
  · rw [h, hone]
    show d.length + p.buffer.length ≤ _
    omega
  · rw [webSocketOnData_of_passes h]
    rcases collect_cases p d with ⟨-, h⟩ | ⟨-, h⟩ | ⟨-, h⟩
    · rw [h, hone, List.length_append]
      exact Nat.le_refl _
    · rw [h]
      exact Nat.zero_le _
    · rw [h, hnone, List.length_append]
      omega

/-- No more is delivered than the buffer holds and the messages bring. -/
theorem delivered_le (p : Page) (cs : List (List Placed)) :
    delivered (p.deliveries cs) ≤ p.buffer.length + cs.flatten.length := by
  induction cs generalizing p with
  | nil => exact Nat.zero_le _
  | cons c cs ih =>
    rw [deliveries_cons, delivered_append, List.flatten_cons, List.length_append]
    have hstep := delivered_webSocketOnData p c
    have hrest := ih (p.webSocketOnData c).1
    omega

theorem delivered_expected (n : Nat) (rs : List Response) :
    delivered (expected n rs) = (stream rs).length := by
  induction rs generalizing n with
  | nil => rfl
  | cons r rs ih =>
    have hcons : delivered (expected n (r :: rs)) =
        r.text.length + delivered (expected (n + r.text.length) rs) := by
      simp [expected, delivered, place_length]
    have hstream : stream (r :: rs) = r.text ++ stream rs := List.flatMap_cons
    rw [hcons, ih, hstream, List.length_append]

/-! ## Suited messages are delivered -/

/-- Messages that make up a response are collected, and delivered with the last of them. -/
theorem deliveries_collected (hr : codes (p.buffer ++ g.flatten) = r.text) (hg : g ≠ [])
    (hne : ∀ data ∈ g, data ≠ []) (hpass : ∀ data ∈ g, Passes data)
    (hattempts : p.attempts + g.length ≤ 6) (cs : List (List Placed)) :
    p.deliveries (g ++ cs) = (.setJsonObject, p.buffer ++ g.flatten) :: Page.deliveries {} cs := by
  induction g generalizing p with
  | nil => exact absurd rfl hg
  | cons c g ih =>
    rw [List.cons_append, deliveries_cons,
      webSocketOnData_of_passes (hpass c List.mem_cons_self)]
    rw [List.flatten_cons, ← List.append_assoc] at hr
    cases g with
    | nil =>
      rw [List.flatten_nil, List.append_nil] at hr
      have hparse : (parse (codes (p.buffer ++ c))).isSome = true := by
        rw [hr, r.parse_text]
        rfl
      simp [Page.collect, hparse]
    | cons c' g =>
      have hrest : codes (c' :: g).flatten ≠ [] := by
        intro h
        have hc' := List.append_eq_nil_iff.mp (List.map_eq_nil_iff.mp h)
        exact hne c' (List.mem_cons_of_mem c List.mem_cons_self) hc'.1
      have hparse : parse (codes (p.buffer ++ c)) = none :=
        r.parse_beginning (by rw [← codes_append, hr]) hrest
      have hcollect : p.collect c =
          ({ buffer := p.buffer ++ c, attempts := p.attempts + 1 }, []) := by
        rcases collect_cases p c with ⟨h, -⟩ | ⟨h, -⟩ | ⟨-, h⟩
        · rw [hparse] at h
          cases h
        · simp only [List.length_cons] at hattempts
          omega
        · exact h
      rw [hcollect, List.nil_append, ih hr (List.cons_ne_nil c' g)
        (fun data hdata => hne data (List.mem_cons_of_mem c hdata))
        (fun data hdata => hpass data (List.mem_cons_of_mem c hdata))
        (by simp only [List.length_cons] at hattempts ⊢; omega)]
      have hflat : (c :: c' :: g).flatten = c ++ (c' :: g).flatten := List.flatten_cons
      rw [hflat, List.append_assoc]

/-- The messages of a response deliver it. -/
theorem Suits.deliveries (h : Suits r g) (hne : ∀ data ∈ g, data ≠ []) (cs : List (List Placed)) :
    Page.deliveries {} (g ++ cs) = (r.consumer, g.flatten) :: Page.deliveries {} cs := by
  have hg : g ≠ [] := by
    rintro rfl
    exact r.text_ne_nil h.whole.symm
  by_cases hconsumer : r.consumer = .setJsonObject
  · obtain ⟨hlen, hpass⟩ := h.shown hconsumer
    rw [hconsumer]
    exact deliveries_collected (p := {}) h.whole hg hne hpass (by simpa using hlen) cs
  · obtain ⟨hlen, hthrows⟩ := h.error hconsumer
    obtain ⟨c, rfl⟩ := List.length_eq_one_iff.mp hlen
    have hwhole := h.whole
    rw [List.flatten_singleton] at hwhole ⊢
    have hparse : parse (codes c) = some (.obj r.members) := by rw [hwhole, r.parse_text]
    have hne' : consumer (.obj r.members) ≠ .setJsonObject := hconsumer
    rw [List.singleton_append, deliveries_cons]
    simp [Page.webSocketOnData, hparse, hthrows, hne', Response.consumer]

/-- Suited messages carry the texts of the responses. -/
theorem codes_of_suited {groups : List (List (List Placed))} (h : List.Forall₂ Suits rs groups) :
    codes groups.flatten.flatten = stream rs := by
  induction h with
  | nil => rfl
  | @cons r g rs groups hr _ ih =>
    rw [List.flatten_cons, List.flatten_append, codes_append, hr.whole, ih]
    rfl

/-- Suited messages deliver the responses that they carry, with the places that they have. -/
theorem deliveries_of_suited {groups : List (List (List Placed))}
    (h : List.Forall₂ Suits rs groups) (hne : ∀ data ∈ groups.flatten, data ≠ [])
    (hplace : groups.flatten.flatten = place n (stream rs)) :
    Page.deliveries {} groups.flatten = expected n rs := by
  induction h generalizing n with
  | nil => rfl
  | @cons r g rs groups hr hrs ih =>
    rw [List.flatten_cons] at hne hplace ⊢
    rw [List.forall_mem_append] at hne
    rw [List.flatten_append, stream, List.flatMap_cons, place_append] at hplace
    have hlen : g.flatten.length = (place n r.text).length := by
      rw [place_length, ← codes_length, hr.whole]
    obtain ⟨hfirst, hrest⟩ := List.append_inj hplace hlen
    rw [hr.deliveries hne.1, hfirst, ih hne.2 hrest, expected]

/-! ## What is delivered was suited -/

/-- The stream of the messages that have not been delivered yet. -/
structure Pending (b cs : List (List Placed)) (n : Nat) (rs : List Response) : Prop where
  few : b.length ≤ 5
  passes : ∀ data ∈ b, Passes data
  ne_nil : ∀ data ∈ b ++ cs, data ≠ []
  stream : b.flatten ++ cs.flatten = (place n (stream rs)).map written

/-- The page that has collected these messages. -/
def collected (b : List (List Placed)) : Page := { buffer := b.flatten, attempts := b.length }

theorem place_cons_map (n : Nat) (r : Response) (rs : List Response) :
    (place n (stream (r :: rs))).map written =
      (place n r.text).map written ++ (place (n + r.text.length) (stream rs)).map written := by
  have hstream : stream (r :: rs) = r.text ++ stream rs := List.flatMap_cons
  rw [hstream, place_append, List.map_append]

theorem Pending.head_ne_nil (h : Pending b (c :: cs) n rs) : c ≠ [] :=
  h.ne_nil c (List.mem_append_right b List.mem_cons_self)

theorem Pending.start (hne : ∀ data ∈ cs, data ≠ [])
    (hstream : cs.flatten = (place n (DBMHandler.stream rs)).map written) : Pending [] cs n rs :=
  ⟨Nat.zero_le 5, fun _ hd => absurd hd List.not_mem_nil, hne, hstream⟩

/-- A message that is not kept would be missing in the end. -/
theorem Pending.not_lost (h : Pending b (c :: cs) n rs) (hp : p.buffer.length ≤ b.flatten.length) :
    p.deliveries cs ≠ expected n rs := by
  intro hds
  have hlen := congrArg List.length h.stream
  have hall := congrArg delivered hds
  have hrest := delivered_le p cs
  have hc : 0 < c.length := List.length_pos_iff.mpr h.head_ne_nil
  rw [List.length_map, place_length, List.length_append, List.flatten_cons,
    List.length_append] at hlen
  rw [delivered_expected] at hall
  omega

/-- What is delivered next is the next response, as it was written. -/
theorem next_response {ds : List Delivery} {x : Consumer} {t u : List Placed}
    (hds : (x, t) :: ds = expected n rs) (hstream : t ++ u = (place n (stream rs)).map written) :
    ∃ r rs', rs = r :: rs' ∧ x = r.consumer ∧ codes t = r.text ∧
      ds = expected (n + r.text.length) rs' ∧
      u = (place (n + r.text.length) (stream rs')).map written := by
  cases rs with
  | nil => cases hds
  | cons r rs =>
    rw [expected, List.cons.injEq, Prod.mk.injEq] at hds
    obtain ⟨⟨rfl, rfl⟩, rfl⟩ := hds
    rw [place_cons_map] at hstream
    obtain ⟨-, hrest⟩ := List.append_inj hstream (by rw [List.length_map])
    exact ⟨r, rs, rfl, rfl, codes_place n r.text, rfl, hrest⟩

/-- The place of a character of the stream. -/
theorem place_of_append {x : Placed} {s : List Nat} (h : t ++ x :: u = (place n s).map written) :
    x.1 = n + t.length := by
  induction t generalizing n s with
  | nil =>
    cases s with
    | nil => cases h
    | cons c s =>
      rw [place, List.map_cons, List.nil_append, List.cons.injEq] at h
      rw [h.1, written_fst]
      rfl
  | cons y t ih =>
    cases s with
    | nil => cases h
    | cons c s =>
      rw [place, List.map_cons, List.cons_append, List.cons.injEq] at h
      rw [ih h.2, List.length_cons]
      omega

/-- An error that is delivered in its turn comes when the buffer is empty. -/
theorem Pending.empty_of_error (h : Pending b (c :: cs) n rs) {ds : List Delivery} {x : Consumer}
    (hds : (x, c) :: ds = expected n rs) : b = [] := by
  obtain ⟨y, c', rfl⟩ := List.exists_cons_of_ne_nil h.head_ne_nil
  -- the first character has the place of the response, hence nothing comes before it
  have hfirst : y.1 = n := by
    cases rs with
    | nil => cases hds
    | cons r rs =>
      rw [expected, List.cons.injEq, Prod.mk.injEq] at hds
      have hplace := hds.1.2
      cases htext : r.text with
      | nil => exact absurd htext r.text_ne_nil
      | cons z s =>
        rw [htext, place, List.cons.injEq] at hplace
        rw [hplace.1]
  have hstream := h.stream
  rw [List.flatten_cons, List.cons_append] at hstream
  have hplace := place_of_append hstream
  have hflat : b.flatten = [] := List.length_eq_zero_iff.mp (by omega)
  cases b with
  | nil => rfl
  | cons d b =>
    exact absurd (List.append_eq_nil_iff.mp hflat).1
      (h.ne_nil d (List.mem_append_left _ List.mem_cons_self))

theorem Suited.cons (hr : Suits r g) (h : Suited rs cs) : Suited (r :: rs) (g ++ cs) := by
  obtain ⟨groups, rfl, hgroups⟩ := h
  exact ⟨g :: groups, rfl, .cons hr hgroups⟩

/-- Deliveries of every response show how its messages were grouped. -/
theorem suited_of_deliveries (h : Pending b cs n rs)
    (hds : (collected b).deliveries cs = expected n rs) : Suited rs (b ++ cs) := by
  induction cs generalizing b n rs with
  | nil =>
    cases rs with
    | cons r rs => cases hds
    | nil =>
      cases b with
      | nil => exact ⟨[], rfl, .nil⟩
      | cons d b =>
        have hflat := (List.append_eq_nil_iff.mp h.stream).1
        exact absurd (List.append_eq_nil_iff.mp hflat).1
          (h.ne_nil d (List.mem_append_left [] List.mem_cons_self))
  | cons c cs ih =>
    have hcs : ∀ data ∈ cs, data ≠ [] :=
      fun data hdata => h.ne_nil data (List.mem_append_right b (List.mem_cons_of_mem c hdata))
    rw [deliveries_cons] at hds
    rcases message_cases (collected b) c with hcase | ⟨v, hv, hthrows, hconsumer, hcase⟩ | hpass
    · rw [hcase] at hds
      exact absurd hds (h.not_lost (Nat.le_refl _))
    · rw [hcase] at hds
      obtain rfl := h.empty_of_error hds
      obtain ⟨r, rs, rfl, hr, htext, hrest, hstream⟩ := next_response hds h.stream
      have hvalue : v = .obj r.members := by
        rw [htext, r.parse_text, Option.some.injEq] at hv
        exact hv.symm
      subst hvalue
      have hsuits : Suits r [c] :=
        { whole := by rw [List.flatten_singleton, htext]
          shown := fun hshown => absurd hshown hconsumer
          error := fun _ => ⟨rfl, hthrows⟩ }
      show Suited (r :: rs) ([c] ++ cs)
      exact Suited.cons hsuits (ih (.start hcs hstream) hrest)
    · rw [webSocketOnData_of_passes hpass] at hds
      have hpasses : ∀ data ∈ b ++ [c], Passes data := by
        rw [List.forall_mem_append, List.forall_mem_singleton]
        exact ⟨h.passes, hpass⟩
      have hstream := h.stream
      rw [List.flatten_cons, ← List.append_assoc] at hstream
      have hassoc : b ++ c :: cs = (b ++ [c]) ++ cs := by
        rw [List.append_assoc, List.singleton_append]
      have hflat : (b ++ [c]).flatten = b.flatten ++ c := by
        rw [List.flatten_append, List.flatten_singleton]
      have hlen : (b ++ [c]).length = b.length + 1 := by
        rw [List.length_append, List.length_singleton]
      rw [hassoc]
      rcases collect_cases (collected b) c with ⟨-, hcase⟩ | ⟨-, hcase⟩ | ⟨hfew, hcase⟩
      · rw [hcase] at hds
        obtain ⟨r, rs, rfl, hr, htext, hrest, hstream'⟩ := next_response hds hstream
        have hsuits : Suits r (b ++ [c]) :=
          { whole := by rw [hflat]; exact htext
            shown := fun _ => ⟨by have := h.few; omega, hpasses⟩
            error := fun herror => absurd hr.symm herror }
        exact Suited.cons hsuits (ih (.start hcs hstream') hrest)
      · rw [hcase] at hds
        exact absurd hds (h.not_lost (Nat.zero_le _))
      · rw [hcase] at hds
        have hmore : collected (b ++ [c]) = { buffer := b.flatten ++ c, attempts := b.length + 1 } := by
          rw [collected, hflat, hlen]
        have hpending : Pending (b ++ [c]) cs n rs :=
          { few := by rw [hlen]; exact hfew
            passes := hpasses
            ne_nil := hassoc ▸ h.ne_nil
            stream := by rw [hflat]; exact hstream }
        refine ih hpending ?_
        rw [hmore]
        exact hds

/-! ## Every cut of the stream -/

/-- A text without quotes, escapes and control characters stands for itself. -/
theorem chars_of_plain {s : List Nat} (h : ∀ c ∈ s, 32 ≤ c ∧ c ≠ 34 ∧ c ≠ 92) : Chars s s := by
  induction s with
  | nil => exact .nil
  | cons c s ih =>
    obtain ⟨⟨hc, hquote, hback⟩, hs⟩ := List.forall_mem_cons.mp h
    exact .plain hc hquote hback (ih hs)

/-- The text of a string that needs no escapes. -/
def quoted (s : String) : List Nat := 34 :: chars s ++ [34]

/-- A member of an encoded `Message`; there is no white space. -/
def member (key : String) (text : List Nat) (value : Json) : Member :=
  { before := [], key := chars key, after := [], units := chars key,
    element := { before := [], text, after := [], value } }

/-- The members of a `Message` that lists no database. -/
def noDatabases : List Member :=
  [member "key" (quoted "k1") (.str (chars "k1")),
    member "retType" (quoted "databaseMenu") (.str (chars "databaseMenu")),
    member "db" (quoted "") (.str []), member "data" [91, 93] (.arr []),
    member "code" [48] (.num [48]), member "msg" (quoted "成功") (.str (chars "成功")),
    member "attr" [110, 117, 108, 108] .null]

theorem noDatabases_value : ∀ m ∈ noDatabases, Value m.element.text m.element.value := by
  have hzero : Number [48] := ⟨[], [48], [], [], .inl rfl, .inl rfl, .inl rfl, .inl rfl, rfl⟩
  simp only [noDatabases, List.forall_mem_cons]
  refine ⟨.str ?_, .str ?_, .str .nil, .nil (w := []) (by decide), .num hzero, .str ?_, .null, ?_⟩
  · exact chars_of_plain (by decide)
  · exact chars_of_plain (by decide)
  · exact chars_of_plain (by decide)
  · exact fun m hm => absurd hm List.not_mem_nil

theorem noDatabases_keys : ∀ m ∈ noDatabases, Chars m.key m.units := by
  have hplain : ∀ m ∈ noDatabases, m.key = m.units ∧ ∀ c ∈ m.key, 32 ≤ c ∧ c ≠ 34 ∧ c ≠ 92 := by
    decide
  intro m hm
  obtain ⟨hkey, hchars⟩ := hplain m hm
  exact hkey ▸ chars_of_plain hchars

/-- The response to a request for the databases. -/
def databaseMenu : Response where
  text := 123 :: commas (noDatabases.map Member.whole) ++ [125]
  members := noDatabases.map fun m => (m.units, m.element.value)
  value := .obj (by decide) (by decide) noDatabases_keys noDatabases_value

/-- Both responses are written before the first tick. -/
def bothAtOnce : Turns [databaseMenu, databaseMenu] where
  events := (place 0 (stream [databaseMenu, databaseMenu])).map .data
  all := by simp [Function.comp_def, Event.unit?]

end NextDBM.DBMHandler
