import IdfRemote.MuxRoundTrip

/-!
# The grammar of the serial stream

What a byte stream means, said without a decoder: it is cut at the delimiters, and
each part stands for nothing, for itself, for a frame or for damage. `feed` computes
this in one pass. Several calls of `feed` cut the unframed text of a segment at the
borders of the calls and change nothing else.
-/
namespace IdfRemote.Mux
open LittleEndian

/-- A body of version 1 that stands for `f`. -/
def IsBody (f : Frame) (body : List UInt8) : Prop :=
  hello ≤ f.kind ∧ f.kind ≤ error ∧ f.session ≠ 0 ∧ body = f.body

/-- Undoing the escapes; nothing when the last byte is an escape byte. -/
def unescaped : List UInt8 → Option (List UInt8)
  | [] => some []
  | [b] => if b = 0x7d then none else some [b]
  | b :: c :: rest =>
      if b = 0x7d then (unescaped rest).map (List.cons (c ^^^ 0x20))
      else (unescaped (c :: rest)).map (List.cons b)

namespace Grammar

/-- Text outside frames stands as it is. -/
def text (part : List UInt8) : List Decoded := if part = [] then [] else [.raw part]

open Classical in
/-- A complete body stands for its frame, if there is one. -/
noncomputable def bodyItem (body : List UInt8) : Decoded :=
  if h : ∃ f, IsBody f body then .frame h.choose else .corrupt

/-- The size limit holds for the body without its escapes. -/
noncomputable def bodyItems : Option (List UInt8) → List Decoded
  | none => [.corrupt]
  | some body => if body.length ≤ maxBody then [bodyItem body] else [.corrupt]

/-- A part behind a delimiter and closed by the next one. -/
noncomputable def closed (part : List UInt8) : List Decoded :=
  if part.head? = some 1 then bodyItems (unescaped part) else text part

/-- The part behind the last delimiter. -/
def unclosed (part : List UInt8) : List Decoded :=
  if part.head? = some 1 then [] else text part

noncomputable def later : List (List UInt8) → List Decoded
  | [] => []
  | [part] => unclosed part
  | part :: next :: parts => closed part ++ later (next :: parts)

noncomputable def items (stream : List UInt8) : List Decoded :=
  match stream.splitOn 0x7e with
  | [] => []
  | first :: parts => text first ++ later parts

end Grammar

/-- The first list arises from the second by cutting each raw item into nonempty pieces. -/
inductive Pieces : List Decoded → List Decoded → Prop
  | nil : Pieces [] []
  | whole {ds es : List Decoded} (e : Decoded) : Pieces ds es → Pieces (ds ++ [e]) (es ++ [e])
  | cut {ds es : List Decoded} (parts : List (List UInt8)) :
      parts ≠ [] → (∀ part ∈ parts, part ≠ []) → Pieces ds es →
      Pieces (ds ++ parts.map .raw) (es ++ [.raw parts.flatten])

theorem Pieces.append {ds es : List Decoded} (h : Pieces ds es) (fs : List Decoded) :
    Pieces (ds ++ fs) (es ++ fs) := by
  induction fs generalizing ds es with
  | nil => simpa using h
  | cons f fs ih => simpa using ih (h.whole f)

namespace Frame

theorem header_of_fields {h : List UInt8} (hlen : 14 ≤ h.length) (hversion : h[0]? = some 1) :
    ({ kind := h.getD 1 0
       session := UInt64.ofNat (fromLeBytes ((h.drop 2).take 8))
       request := UInt32.ofNat (fromLeBytes ((h.drop 10).take 4))
       payload := h.drop 14 } : Frame).header = h := by
  have hsession : ((h.drop 2).take 8).length = 8 := by simp; omega
  have hrequest : ((h.drop 10).take 4).length = 4 := by simp; omega
  have hs : (UInt64.ofNat (fromLeBytes ((h.drop 2).take 8))).toNat =
      fromLeBytes ((h.drop 2).take 8) := by
    have := fromLeBytes_lt ((h.drop 2).take 8)
    rw [hsession] at this
    exact UInt64.toNat_ofNat_of_lt' this
  have hr : (UInt32.ofNat (fromLeBytes ((h.drop 10).take 4))).toNat =
      fromLeBytes ((h.drop 10).take 4) := by
    have := fromLeBytes_lt ((h.drop 10).take 4)
    rw [hrequest] at this
    exact UInt32.toNat_ofNat_of_lt' this
  rw [header, hs, hr, toLeBytes_fromLeBytes hsession, toLeBytes_fromLeBytes hrequest]
  obtain ⟨a, b, rest, rfl⟩ : ∃ a b rest, h = a :: b :: rest := by
    rcases h with - | ⟨a, - | ⟨b, rest⟩⟩
    · simp at hlen
    · simp at hlen
    · exact ⟨a, b, rest, rfl⟩
  have ha : a = 1 := by simpa using hversion
  have hrest : rest.take 8 ++ ((rest.drop 8).take 4 ++ rest.drop 12) = rest := by
    rw [show rest.drop 12 = (rest.drop 8).drop 4 by simp, List.take_append_drop,
      List.take_append_drop]
  simp [ha, hrest]

theorem body_of_fields {body : List UInt8} (hmin : 18 ≤ body.length)
    (hversion : body[0]? = some 1)
    (hcrc : (crc32 (body.take (body.length - 4))).toNat =
      fromLeBytes (body.drop (body.length - 4))) :
    ({ kind := body.getD 1 0
       session := UInt64.ofNat (fromLeBytes ((body.drop 2).take 8))
       request := UInt32.ofNat (fromLeBytes ((body.drop 10).take 4))
       payload := (body.take (body.length - 4)).drop 14 } : Frame).body = body := by
  have hheader := header_of_fields (h := body.take (body.length - 4)) (by simp; omega)
    (by rw [List.getElem?_take_of_lt (by omega), hversion])
  have hkind : (body.take (body.length - 4)).getD 1 0 = body.getD 1 0 := by
    simp [List.getD, List.getElem?_take_of_lt (show 1 < body.length - 4 by omega)]
  have hsession : ((body.take (body.length - 4)).drop 2).take 8 = (body.drop 2).take 8 := by
    rw [List.drop_take, List.take_take, Nat.min_eq_left (by omega)]
  have hrequest : ((body.take (body.length - 4)).drop 10).take 4 = (body.drop 10).take 4 := by
    rw [List.drop_take, List.take_take, Nat.min_eq_left (by omega)]
  rw [hkind, hsession, hrequest] at hheader
  rw [Frame.body, hheader, hcrc, toLeBytes_fromLeBytes (by simp; omega), List.take_append_drop]

/-- A body that decodes is the body of the frame it decodes to. -/
theorem decode_eq_some {body : List UInt8} {f : Frame} (hlen : body.length ≤ maxBody) :
    decode body = some f ↔ f.Encodable ∧ body = f.body := by
  constructor
  · intro h
    unfold decode at h
    split at h
    · cases h
    · rename_i hguard
      push Not at hguard
      dsimp only at h
      split at h
      · cases h
      · rename_i hcrc
        split at h
        · rename_i hsession
          cases Option.some.inj h
          refine ⟨⟨?_, hguard.2.2, hsession⟩, ?_⟩
          · simp only [List.length_drop, List.length_take]
            unfold maxBody at hlen
            omega
          · exact (body_of_fields hguard.1 hguard.2.1 (not_not.mp hcrc)).symm
        · cases h
  · rintro ⟨hf, rfl⟩
    exact decode_body hf

theorem isBody_iff {body : List UInt8} {f : Frame} (hlen : body.length ≤ maxBody) :
    IsBody f body ↔ decode body = some f := by
  rw [decode_eq_some hlen]
  constructor
  · rintro ⟨hlow, hhigh, hsession, rfl⟩
    rw [length_body, maxBody] at hlen
    exact ⟨⟨by omega, ⟨hlow, hhigh⟩, hsession⟩, rfl⟩
  · rintro ⟨⟨-, ⟨hlow, hhigh⟩, hsession⟩, rfl⟩
    exact ⟨hlow, hhigh, hsession, rfl⟩

end Frame

/-- The classical reading of a body is what the check of the source computes. -/
theorem Grammar.bodyItem_eq {body : List UInt8} (hlen : body.length ≤ maxBody) :
    bodyItem body = (Frame.decode body).elim .corrupt .frame := by
  unfold bodyItem
  split_ifs with h
  · rw [(Frame.isBody_iff hlen).mp h.choose_spec]
    rfl
  · cases hd : Frame.decode body with
    | none => rfl
    | some f => exact absurd ⟨f, (Frame.isBody_iff hlen).mpr hd⟩ h

namespace Decoder
open Grammar

/-- A segment that has lost its body stays lost until the delimiter. -/
theorem foldl_push_overflow {d : Decoder} (h : d.overflow = true) (part : List UInt8) :
    part.foldl push d = d := by
  induction part with
  | nil => rfl
  | cons b part ih => rw [List.foldl_cons, push, if_pos h, ih]

/-- A segment whose unescaped bytes so far are `acc`. -/
def opened (acc : List UInt8) : Decoder := limit { inFrame := true, body := acc }

theorem push_opened (acc : List UInt8) (b : UInt8) (hacc : acc.length ≤ maxBody) :
    (opened acc).push b =
      if b = 0x7d then { inFrame := true, escaped := true, body := acc }
      else opened (acc ++ [b]) := by
  rw [opened, limit_of_le hacc]
  unfold push unescape
  split_ifs <;> simp_all [opened, limit_of_le]

theorem push_escaped (acc : List UInt8) (b : UInt8) :
    ({ inFrame := true, escaped := true, body := acc } : Decoder).push b =
      opened (acc ++ [b ^^^ 0x20]) := by
  simp [push, unescape, opened]

@[simp] theorem foldl_push_inFrame (d : Decoder) (part : List UInt8) :
    (part.foldl push d).inFrame = d.inFrame := by
  induction part generalizing d with
  | nil => rfl
  | cons b part ih => rw [List.foldl_cons, ih, push_inFrame]

theorem finish_opened_long {acc : List UInt8} (hacc : maxBody < acc.length) (part : List UInt8) :
    (part.foldl push (opened acc)).finish = bodyItems ((unescaped part).map (acc ++ ·)) := by
  have hover : (opened acc).overflow = true := by simp [opened, limit, hacc]
  have hframe : (opened acc).inFrame = true := by simp [opened]
  rw [foldl_push_overflow hover, finish, if_pos hframe, hover]
  cases unescaped part with
  | none => rfl
  | some body =>
      have hlong : ¬ (acc ++ body).length ≤ maxBody := by
        rw [List.length_append]
        omega
      simp only [Option.map_some, bodyItems, if_neg hlong]
      rfl

theorem finish_opened (acc : List UInt8) (hne : acc ≠ []) :
    (opened acc).finish = bodyItems (some acc) := by
  rcases Nat.lt_or_ge maxBody acc.length with hlong | hacc
  · simpa [unescaped] using finish_opened_long hlong []
  · rw [opened, limit_of_le hacc]
    simp [finish, bodyItems, hne, hacc, bodyItem_eq hacc]

/-- What a delimiter makes of the rest of a segment whose first bytes are known. -/
theorem finish_foldl_push (acc part : List UInt8) (hne : acc ≠ [] ∨ part ≠ []) :
    (part.foldl push (opened acc)).finish = bodyItems ((unescaped part).map (acc ++ ·)) := by
  induction part using unescaped.induct generalizing acc with
  | case1 => simpa [unescaped] using finish_opened acc (by simpa using hne)
  | case2 =>
      rcases Nat.lt_or_ge maxBody acc.length with hlong | hacc
      · exact finish_opened_long hlong _
      rw [List.foldl_cons, List.foldl_nil, push_opened _ _ hacc, if_pos rfl]
      rfl
  | case3 b hb =>
      rcases Nat.lt_or_ge maxBody acc.length with hlong | hacc
      · exact finish_opened_long hlong _
      rw [List.foldl_cons, List.foldl_nil, push_opened _ _ hacc, if_neg hb, unescaped, if_neg hb]
      exact finish_opened _ (by simp)
  | case4 c rest ih =>
      rcases Nat.lt_or_ge maxBody acc.length with hlong | hacc
      · exact finish_opened_long hlong _
      rw [List.foldl_cons, List.foldl_cons, push_opened _ _ hacc, if_pos rfl, push_escaped,
        ih _ (.inl (by simp)), unescaped, if_pos rfl, Option.map_map]
      simp [Function.comp_def]
  | case5 b c rest hb ih =>
      rcases Nat.lt_or_ge maxBody acc.length with hlong | hacc
      · exact finish_opened_long hlong _
      rw [List.foldl_cons, push_opened _ _ hacc, if_neg hb, ih _ (.inl (by simp)), unescaped,
        if_neg hb, Option.map_map]
      simp [Function.comp_def]

/-- Inside a segment that has begun, bytes are only accumulated. -/
def Begun (d : Decoder) : Prop :=
  d.inFrame = true ∧ (d.body ≠ [] ∨ d.escaped = true ∨ d.overflow = true)

theorem Begun.unframed {d : Decoder} (h : d.Begun) (b : UInt8) : d.unframed b = false := by
  obtain ⟨hframe, hbody | hescaped | hover⟩ := h
  · simp [Decoder.unframed, hframe, hbody]
  · simp [Decoder.unframed, hframe, hescaped]
  · simp [Decoder.unframed, hframe, hover]

theorem begun_opened {acc : List UInt8} (hne : acc ≠ []) : (opened acc).Begun := by
  refine ⟨by simp [opened], ?_⟩
  unfold opened limit
  split_ifs
  · exact .inr (.inr rfl)
  · exact .inl hne

theorem Begun.push {d : Decoder} (h : d.Begun) (b : UInt8) : (d.push b).Begun := by
  refine ⟨by simp [h.1], ?_⟩
  unfold Decoder.push unescape
  split_ifs with hover
  · exact h.2
  all_goals
    unfold limit
    split_ifs <;> simp

theorem Begun.foldl_byte {d : Decoder} (h : d.Begun) {part : List UInt8} (hpart : 0x7e ∉ part)
    (result : List Decoded) :
    part.foldl Loop.byte { decoder := d, result } =
      { decoder := part.foldl Decoder.push d, result } := by
  induction part generalizing d with
  | nil => rfl
  | cons b part ih =>
      have hb : b ≠ 0x7e := fun hb => hpart (by simp [hb])
      have hbyte : Loop.byte { decoder := d, result } b = { decoder := d.push b, result } := by
        simp [Loop.byte, hb, h.unframed b]
      rw [List.foldl_cons, hbyte, ih (h.push b) fun hmem => hpart (by simp [hmem])]
      rfl

theorem foldl_byte_outside {part : List UInt8} (hpart : 0x7e ∉ part) (raw : List UInt8)
    (result : List Decoded) :
    part.foldl Loop.byte { decoder := {}, raw, result } =
      { decoder := {}, raw := raw ++ part, result } := by
  induction part generalizing raw with
  | nil => simp
  | cons b part ih =>
      have hb : b ≠ 0x7e := fun hb => hpart (by simp [hb])
      have hbyte : Loop.byte { decoder := {}, raw, result } b =
          { decoder := {}, raw := raw ++ [b], result } := by
        simp [Loop.byte, hb, unframed]
      rw [List.foldl_cons, hbyte, ih fun hmem => hpart (by simp [hmem])]
      simp

/-- The loop at the end of a part behind a delimiter. -/
theorem foldl_byte_synced {part : List UInt8} (hpart : 0x7e ∉ part) (result : List Decoded) :
    part.foldl Loop.byte { decoder := synced, result } =
      if part.head? = some 1 then { decoder := part.foldl push synced, result }
      else if part = [] then { decoder := synced, result }
      else { decoder := {}, raw := part, result } := by
  cases part with
  | nil => rfl
  | cons b part =>
      have hb : b ≠ 0x7e := fun hb => hpart (by simp [hb])
      have hrest : 0x7e ∉ part := fun hmem => hpart (by simp [hmem])
      by_cases hone : b = 1
      · have hpush : synced.push b = opened [b] := by
          have := push_opened [] b (by simp)
          rwa [if_neg (by simp [hone])] at this
        have hbyte : Loop.byte { decoder := synced, result } b =
            { decoder := opened [b], result } := by
          rw [← hpush]
          simp [Loop.byte, unframed, synced, hone]
        rw [List.foldl_cons, hbyte, (begun_opened (by simp)).foldl_byte hrest, List.foldl_cons,
          hpush, if_pos (by simp [hone])]
      · have hbyte : Loop.byte { decoder := synced, result } b =
            { decoder := {}, raw := [b], result } := by
          simp [Loop.byte, hb, unframed, synced, hone]
        rw [List.foldl_cons, hbyte, foldl_byte_outside hrest, if_neg (by simpa using hone),
          if_neg (by simp)]
        rfl

theorem flush_foldl_unclosed {part : List UInt8} (hpart : 0x7e ∉ part) (result : List Decoded) :
    (part.foldl Loop.byte { decoder := synced, result }).flush = result ++ unclosed part := by
  rw [foldl_byte_synced hpart]
  unfold unclosed text
  split_ifs with hone hnil <;> simp [Loop.flush, *]

theorem foldl_byte_closed {part : List UInt8} (hpart : 0x7e ∉ part) (result : List Decoded) :
    Loop.byte (part.foldl Loop.byte { decoder := synced, result }) 0x7e =
      { decoder := synced, result := result ++ closed part } := by
  rw [foldl_byte_synced hpart]
  unfold closed text
  split_ifs with hone hnil
  · have hne : part ≠ [] := by
      rintro rfl
      simp at hone
    have hframe : (part.foldl push synced).inFrame = true := by simp [synced]
    have hfinish : (part.foldl push synced).finish = bodyItems (unescaped part) := by
      have := finish_foldl_push [] part (.inr hne)
      simpa [opened, limit, synced] using this
    simp only [Loop.byte, Loop.flush, restart, hframe, hfinish, if_true, ne_eq, not_true_eq_false,
      if_false]
    rfl
  · simp [Loop.byte, Loop.flush, restart, finish, synced]
  · simp [Loop.byte, Loop.flush, restart, finish, synced, hnil]

/-- From a delimiter on, the loop computes the later parts. -/
theorem flush_foldl_later (stream : List UInt8) (result : List Decoded) :
    (stream.foldl Loop.byte { decoder := synced, result }).flush =
      result ++ later (stream.splitOn 0x7e) := by
  by_cases hmem : 0x7e ∈ stream
  · obtain ⟨part, rest, rfl, hpart⟩ := List.eq_append_cons_of_mem hmem
    have ih := flush_foldl_later rest (result ++ closed part)
    rw [List.splitOn_append_cons_self_of_not_mem hpart, List.foldl_append, List.foldl_cons,
      foldl_byte_closed hpart, ih, List.append_assoc]
    rcases hsplit : rest.splitOn 0x7e with _ | ⟨next, parts⟩
    · exact absurd hsplit (List.splitOn_ne_nil _ _)
    · rfl
  · rw [List.splitOn_eq_singleton hmem, flush_foldl_unclosed hmem]
    rfl
termination_by stream.length

/-- One call on a whole stream computes the grammar. -/
theorem feed_eq_items (stream : List UInt8) : (feed {} stream).2 = Grammar.items stream := by
  unfold feed Grammar.items
  by_cases hmem : 0x7e ∈ stream
  · obtain ⟨part, rest, rfl, hpart⟩ := List.eq_append_cons_of_mem hmem
    have hbyte : Loop.byte { decoder := {}, raw := part } 0x7e =
        { decoder := synced, result := text part } := by
      unfold text
      split_ifs with hnil <;> simp [Loop.byte, Loop.flush, restart, finish, synced, hnil]
    rw [List.splitOn_append_cons_self_of_not_mem hpart, List.foldl_append, List.foldl_cons,
      foldl_byte_outside hpart, List.nil_append, hbyte]
    exact flush_foldl_later rest (text part)
  · rw [List.splitOn_eq_singleton hmem, foldl_byte_outside hmem]
    by_cases hnil : stream = [] <;> simp [Loop.flush, text, later, hnil]

/-- A loop that has put out some of the text of the current segment already. -/
structure Cut (s t : Loop) (parts : List (List UInt8)) (ds : List Decoded) : Prop where
  decoder : s.decoder = t.decoder
  result : s.result = ds ++ parts.map .raw
  raw : t.raw = parts.flatten ++ s.raw
  nonempty : ∀ part ∈ parts, part ≠ []
  pieces : Pieces ds t.result

theorem Cut.flush {s t : Loop} {parts : List (List UInt8)} {ds : List Decoded}
    (h : Cut s t parts ds) :
    ∃ parts', Cut { decoder := s.decoder, result := s.flush } t parts' ds := by
  by_cases hraw : s.raw = []
  · exact ⟨parts, h.decoder, by simp [Loop.flush, hraw, h.result], by simp [h.raw, hraw],
      h.nonempty, h.pieces⟩
  · refine ⟨parts ++ [s.raw], h.decoder, by simp [Loop.flush, hraw, h.result], by simp [h.raw],
      ?_, h.pieces⟩
    intro part hpart
    rcases List.mem_append.mp hpart with hpart | hpart
    · exact h.nonempty part hpart
    · rwa [List.mem_singleton.mp hpart]

/-- What both loops have put out once the text is flushed. -/
theorem Cut.flush_pieces {s t : Loop} {parts : List (List UInt8)} {ds : List Decoded}
    (h : Cut s t parts ds) : Pieces s.flush t.flush := by
  obtain ⟨parts', h'⟩ := h.flush
  have hresult : s.flush = ds ++ parts'.map .raw := h'.result
  have hraw : t.raw = parts'.flatten := by simpa using h'.raw
  by_cases hnil : parts' = []
  · subst hnil
    have ht : t.raw = [] := by simpa using hraw
    rw [hresult, Loop.flush, if_neg (by simpa using ht)]
    simpa using h'.pieces
  · have ht : t.raw ≠ [] := by
      obtain ⟨part, rest, rfl⟩ := List.exists_cons_of_ne_nil hnil
      simp [hraw, h'.nonempty part List.mem_cons_self]
    rw [hresult, Loop.flush, if_pos ht, hraw]
    exact h'.pieces.cut parts' hnil h'.nonempty

theorem Cut.byte {s t : Loop} {parts : List (List UInt8)} {ds : List Decoded}
    (h : Cut s t parts ds) (b : UInt8) : ∃ parts' ds', Cut (s.byte b) (t.byte b) parts' ds' := by
  unfold Loop.byte
  rw [← h.decoder]
  split_ifs
  · exact ⟨[], s.flush ++ s.decoder.finish, rfl, by simp, rfl, by simp,
      h.flush_pieces.append _⟩
  · exact ⟨parts, ds, rfl, h.result, by simp [h.raw], h.nonempty, h.pieces⟩
  · exact ⟨parts, ds, rfl, h.result, h.raw, h.nonempty, h.pieces⟩

theorem Cut.foldl_byte {s t : Loop} {parts : List (List UInt8)} {ds : List Decoded}
    (h : Cut s t parts ds) (bytes : List UInt8) :
    ∃ parts' ds', Cut (bytes.foldl Loop.byte s) (bytes.foldl Loop.byte t) parts' ds' := by
  induction bytes generalizing s t parts ds with
  | nil => exact ⟨parts, ds, h⟩
  | cons b bytes ih =>
      obtain ⟨_, _, hb⟩ := h.byte b
      exact ih hb

/-- What a call puts out follows what was put out before. -/
theorem foldl_byte_result (bytes : List UInt8) (s : Loop) (before : List Decoded) :
    bytes.foldl Loop.byte { s with result := before ++ s.result } =
      { bytes.foldl Loop.byte s with result := before ++ (bytes.foldl Loop.byte s).result } := by
  induction bytes generalizing s with
  | nil => rfl
  | cons b bytes ih =>
      rw [List.foldl_cons, List.foldl_cons, ← ih]
      congr 1
      unfold Loop.byte
      split_ifs
      · by_cases hraw : s.raw = [] <;> simp [Loop.flush, hraw]
      · rfl
      · rfl

/-- Several calls put out the items of one call, with the text of a segment in pieces. -/
theorem feedAll_pieces {s t : Loop} {parts : List (List UInt8)} {ds : List Decoded}
    (h : Cut s t parts ds) (hraw : s.raw = []) (cs : List (List UInt8)) :
    Pieces (s.result ++ (feedAll s.decoder cs).2) (cs.flatten.foldl Loop.byte t).flush := by
  induction cs generalizing s t parts ds with
  | nil =>
      have hflush : s.flush = s.result := by simp [Loop.flush, hraw]
      rw [feedAll, List.append_nil, ← hflush]
      exact h.flush_pieces
  | cons c cs ih =>
      obtain ⟨_, _, hc⟩ := h.foldl_byte c
      obtain ⟨_, hcut⟩ := hc.flush
      have hrest := ih hcut rfl
      have hs : s = { ({ decoder := s.decoder } : Loop) with result := s.result ++ [] } := by
        cases s
        simp_all
      have hcall := foldl_byte_result c { decoder := s.decoder } s.result
      rw [← hs] at hcall
      have hflush : (c.foldl Loop.byte s).flush = s.result ++ (feed s.decoder c).2 := by
        rw [hcall]
        unfold feed Loop.flush
        dsimp only
        split_ifs <;> simp
      have hdecoder : (c.foldl Loop.byte s).decoder = (feed s.decoder c).1 := by rw [hcall]; rfl
      rw [hflush, hdecoder] at hrest
      rwa [feedAll, List.flatten_cons, List.foldl_append, ← List.append_assoc]

end Decoder

/-- The decoder reads every stream, however it is cut, as the grammar does, and a
body of the permitted length only as the frame whose encoding it is. -/
theorem decoder_computes_grammar :
    (∀ cs : List (List UInt8),
      Pieces (Decoder.feedAll {} cs).2 (Grammar.items cs.flatten)) ∧
    (∀ stream : List UInt8, (Decoder.feed {} stream).2 = Grammar.items stream) ∧
    (∀ (body : List UInt8) (f : Frame), body.length ≤ maxBody →
      Frame.decode body = some f →
        f.encode = .ok (0x7e :: body.flatMap escapeByte ++ [0x7e]) ∧ body = f.body) := by
  refine ⟨fun cs => ?_, Decoder.feed_eq_items, fun body f hlen h => ?_⟩
  · have hcut : Decoder.Cut { decoder := {} } { decoder := {} } [] [] :=
      ⟨rfl, rfl, rfl, by simp, .nil⟩
    rw [← Decoder.feed_eq_items]
    exact Decoder.feedAll_pieces hcut rfl cs
  · obtain ⟨hf, rfl⟩ := (Frame.decode_eq_some hlen).mp h
    exact ⟨Frame.encode_eq_ok.mpr ⟨hf, rfl⟩, rfl⟩

/-- Text cut in two, a damaged frame, and a frame read from its own body. -/
theorem decoder_computes_grammar_hello :
    Pieces [.raw [0x41], .raw [0x42], .corrupt] (Grammar.items [0x41, 0x42, 0x7e, 0x01, 0x7e]) ∧
    (Decoder.feed {} helloFrame.wire).2 = Grammar.items helloFrame.wire ∧
    helloFrame.encode = .ok (0x7e :: helloFrame.body.flatMap escapeByte ++ [0x7e]) := by
  refine ⟨?_, decoder_computes_grammar.2.1 _, ?_⟩
  · exact decoder_computes_grammar.1 [[0x41], [0x42, 0x7e, 0x01], [0x7e]]
  · have hdecode : Frame.decode helloFrame.body = some helloFrame :=
      Frame.decode_body (by decide)
    exact (decoder_computes_grammar.2.2 helloFrame.body helloFrame (by decide) hdecode).1

end IdfRemote.Mux
