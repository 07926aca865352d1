import NfsEmbed.Client.Mounts

/-!
# Printed addresses read back

Whatever address is printed, reading the text gives that address (`Client.address_display`), so two clients
never show as one in a mount table. What is left out of an IPv6 address is a run of zeros
(`zeroes_between`), and a reader fills the gap with as many as are missing.

That the text is the shortest one, or the canonical one of RFC 5952, is not established, and neither is what
reading gives for a text that no address is printed as.
-/

namespace NfsEmbed.Vfs

open Lib

variable {segments : List UInt16} {octets : Bytes}

/-! ## Octets -/

/-- Two octets for each segment. -/
def octetsOf (segments : List UInt16) : Bytes := segments.flatMap fun segment => beBytes 2 segment.toNat

theorem octetsOf_append (segments segments' : List UInt16) :
    octetsOf (segments ++ segments') = octetsOf segments ++ octetsOf segments' := List.flatMap_append

@[simp] theorem length_octetsOf (segments : List UInt16) : (octetsOf segments).length = segments.length * 2 := by
  simp [octetsOf, List.length_flatMap]

/-- Segments that are zero are octets that are zero. -/
theorem octetsOf_zeros (n : Nat) : octetsOf (List.replicate n 0) = List.replicate (n * 2) 0 := by
  induction n with
  | zero => rfl
  | succ _ ih =>
    rw [List.replicate_succ, ← List.singleton_append, octetsOf_append, ih, Nat.succ_mul, Nat.add_comm,
      ← List.replicate_append_replicate]
    rfl

/-- The segments hold the octets they are made of. -/
theorem octetsOf_segmentsOf : ∀ {octets : Bytes}, 2 ∣ octets.length → octetsOf (segmentsOf octets) = octets
  | [], _ => rfl
  | [_], h => absurd (Nat.dvd_one.mp h) (by decide)
  | high :: low :: octets, h => by
    have hpair : beBytes 2 (UInt16.ofNat (high.toNat * 256 + low.toNat)).toNat = [high, low] := by
      have hnat : high.toNat * 256 + low.toNat = beNat [high, low] := by
        simp only [beNat, List.foldl_cons, List.foldl_nil, Nat.zero_mul, Nat.zero_add]
      have hlt : beNat [high, low] < 256 ^ 2 := beNat_lt [high, low]
      rw [hnat, UInt16.toNat_ofNat_of_lt' (hlt.trans_eq (by decide))]
      exact beBytes_beNat [high, low]
    have hrest : octetsOf (segmentsOf octets) = octets :=
      octetsOf_segmentsOf ((Nat.dvd_add_iff_left (Nat.dvd_refl 2)).mpr h)
    unfold octetsOf at hrest ⊢
    rw [segmentsOf, List.flatMap_cons, hpair, hrest]
    rfl

/-! ## The zeros -/

namespace Ipv6Addr

/-- The segments of the span are zeros that something stands in front of and something behind. -/
def Zeros (segments : List UInt16) (span : Span) : Prop :=
  ∃ before behind, before.length = span.start ∧ segments = before ++ (List.replicate span.len 0 ++ behind)

/-- The span is empty, or the zeros that the segments end with. -/
def Running (segments : List UInt16) (span : Span) : Prop :=
  span.len = 0 ∨ ∃ before, before.length = span.start ∧ segments = before ++ List.replicate span.len 0

theorem Zeros.snoc {span : Span} (h : Zeros segments span) (segment : UInt16) :
    Zeros (segments ++ [segment]) span := by
  obtain ⟨before, behind, hstart, rfl⟩ := h
  refine ⟨before, behind ++ [segment], hstart, ?_⟩
  simp only [List.append_assoc]

/-- One more zero continues the run, or starts one. -/
theorem Running.snoc {span : Span} (h : Running segments span) :
    ∃ before, before.length = (if span.len = 0 then segments.length else span.start) ∧
      segments ++ [0] = before ++ List.replicate (span.len + 1) 0 := by
  by_cases hlen : span.len = 0
  · rw [if_pos hlen, hlen]
    exact ⟨segments, rfl, rfl⟩
  · obtain ⟨before, hstart, rfl⟩ := h.resolve_left hlen
    rw [if_neg hlen]
    refine ⟨before, hstart, ?_⟩
    rw [List.replicate_succ', List.append_assoc]

/-- The body of the loop keeps: the longest run is one of zeros, the current one is at the end. -/
theorem step_keeps {longest current : Span} (segment : UInt16) (hlongest : Zeros segments longest)
    (hcurrent : Running segments current) :
    Zeros (segments ++ [segment]) (step (longest, current) (segment, segments.length)).1 ∧
      Running (segments ++ [segment]) (step (longest, current) (segment, segments.length)).2 := by
  simp only [step]
  by_cases hzero : segment = 0
  · subst hzero
    obtain ⟨before, hstart, hrun⟩ := hcurrent.snoc
    rw [if_pos rfl]
    refine ⟨?_, .inr ⟨before, hstart, hrun⟩⟩
    split
    · exact ⟨before, [], hstart, by rw [List.append_nil, hrun]⟩
    · exact hlongest.snoc 0
  · rw [if_neg hzero]
    exact ⟨hlongest.snoc segment, .inl rfl⟩

/-- The loop over all segments. -/
theorem foldl_step_keeps (segments : List UInt16) :
    Zeros segments (segments.zipIdx.foldl step (⟨0, 0⟩, ⟨0, 0⟩)).1 ∧
      Running segments (segments.zipIdx.foldl step (⟨0, 0⟩, ⟨0, 0⟩)).2 := by
  induction segments using List.reverseRecOn with
  | nil => exact ⟨⟨[], [], rfl, rfl⟩, .inl rfl⟩
  | append_singleton _ segment ih =>
    rw [List.zipIdx_append, List.foldl_append, Nat.zero_add]
    exact step_keeps segment ih.1 ih.2

/-- What is printed of the segments is all but zeros. -/
theorem zeroes_between (segments : List UInt16) :
    segments = segments.take (zeroes segments).start ++ (List.replicate (zeroes segments).len 0 ++
      segments.drop ((zeroes segments).start + (zeroes segments).len)) := by
  have hzeros : Zeros segments (zeroes segments) := (foldl_step_keeps segments).1
  generalize zeroes segments = span at hzeros ⊢
  obtain ⟨before, behind, hstart, rfl⟩ := hzeros
  rw [← hstart, List.take_left, ← List.append_assoc, List.drop_left' (by simp), List.append_assoc]

end Ipv6Addr

/-! ## Reading -/

section Read

open Client (partOctets partsOctets address)

/-- Neither a dot nor a colon is a digit. -/
theorem dot_not_mem_numeral {base : Nat} (hbase : 1 < base) (hle : base ≤ 16) (n : Nat) : 0x2e ∉ numeral base n :=
  not_mem_numeral hbase hle (by decide) n

theorem colon_not_mem_numeral {base : Nat} (hbase : 1 < base) (hle : base ≤ 16) (n : Nat) : 0x3a ∉ numeral base n :=
  not_mem_numeral hbase hle (by decide) n

theorem splitOn_fmt_v4 (hoctets : octets ≠ []) :
    (Ipv4Addr.fmt octets).splitOn 0x2e = octets.map fun octet => numeral 10 octet.toNat := by
  apply List.splitOn_intercalate
  · intro part hpart
    obtain ⟨octet, -, rfl⟩ := List.mem_map.mp hpart
    exact dot_not_mem_numeral (by decide) (by decide) _
  · exact fun hnil => hoctets (List.map_eq_nil_iff.mp hnil)

theorem colon_not_mem_fmt_v4 (octets : Bytes) : 0x3a ∉ Ipv4Addr.fmt octets := by
  apply not_mem_intercalate (by decide)
  intro part hpart
  obtain ⟨octet, -, rfl⟩ := List.mem_map.mp hpart
  exact colon_not_mem_numeral (by decide) (by decide) _

/-- The octets are read back from their numerals. -/
theorem octets_numerals (numbers : Bytes) : Client.octets (numbers.map fun octet => numeral 10 octet.toNat) = numbers := by
  unfold Client.octets
  rw [List.map_map]
  refine (List.map_congr_left fun octet _ => ?_).trans (List.map_id numbers)
  rw [Function.comp_apply, readNumeral_numeral (by decide) (by decide), UInt8.ofNat_toNat, id]

/-- A text without the separator is one part. -/
theorem splitOn_of_not_mem {sep : UInt8} {text : Bytes} (h : sep ∉ text) : text.splitOn sep = [text] := by
  have hsplit : ([sep].intercalate [text]).splitOn sep = [text] :=
    List.splitOn_intercalate sep (by simpa using h) (List.cons_ne_nil _ _)
  rwa [List.intercalate_singleton] at hsplit

/-- A segment is read back from its part. -/
theorem partOctets_segment (segment : UInt16) :
    partOctets (numeral 16 segment.toNat) = beBytes 2 segment.toNat := by
  unfold partOctets
  rw [splitOn_of_not_mem (dot_not_mem_numeral (by decide) (by decide) _)]
  exact congrArg (beBytes 2) (readNumeral_numeral (by decide) (by decide) _)

theorem partOctets_segments (segments : List UInt16) :
    (segments.map fun segment => numeral 16 segment.toNat).flatMap partOctets = octetsOf segments := by
  unfold octetsOf
  rw [List.flatMap_map]
  exact List.flatMap_congr fun segment _ => partOctets_segment segment

theorem partOctets_fmt_v4 (hoctets : octets.length = 4) : partOctets (Ipv4Addr.fmt octets) = octets := by
  have hne : octets ≠ [] := List.ne_nil_of_length_eq_add_one hoctets
  unfold partOctets
  rw [splitOn_fmt_v4 hne, if_neg (by simp [hoctets])]
  exact octets_numerals octets

/-- Parts of which the first that is empty marks the gap. -/
theorem partsOctets_append (front back : List Bytes) (hfront : ∀ part ∈ front, part ≠ [])
    (hback : back.takeWhile (· ≠ []) = []) :
    partsOctets (front ++ back) = front.flatMap partOctets ++
      (List.replicate (16 - ((front.flatMap partOctets).length + ((back.filter (· ≠ [])).flatMap partOctets).length)) 0 ++
        (back.filter (· ≠ [])).flatMap partOctets) := by
  have hall : ∀ part ∈ front, decide (part ≠ []) = true := fun part hpart => decide_eq_true (hfront part hpart)
  have hdrop : back.dropWhile (· ≠ []) = back := by
    have hsplit := List.takeWhile_append_dropWhile (p := fun part : Bytes => decide (part ≠ [])) (l := back)
    rwa [hback, List.nil_append] at hsplit
  unfold partsOctets
  rw [List.takeWhile_append_of_pos hall, List.dropWhile_append_of_pos hall, hback, hdrop, List.append_nil]

/-- The parts a chunk of segments gives when something stands next to it. -/
def edge (chunk : List UInt16) : List Bytes :=
  if chunk = [] then [[]] else chunk.map fun segment => numeral 16 segment.toNat

theorem intercalate_edge (chunk : List UInt16) : [0x3a].intercalate (edge chunk) = Ipv6Addr.fmtSubslice chunk := by
  unfold edge
  split
  next h =>
    subst h
    rfl
  next => rfl

theorem ne_nil_of_mem_segments {part : Bytes} (h : part ∈ segments.map fun segment => numeral 16 segment.toNat) :
    part ≠ [] := by
  obtain ⟨segment, -, rfl⟩ := List.mem_map.mp h
  exact numeral_ne_nil 16 _

theorem edge_ne_nil (chunk : List UInt16) : edge chunk ≠ [] := by
  unfold edge
  split
  next => exact List.cons_ne_nil _ _
  next h => exact fun hnil => h (List.map_eq_nil_iff.mp hnil)

theorem colon_not_mem_edge {chunk : List UInt16} {part : Bytes} (h : part ∈ edge chunk) : 0x3a ∉ part := by
  unfold edge at h
  split at h
  next =>
    rw [List.mem_singleton.mp h]
    exact List.not_mem_nil
  next =>
    obtain ⟨segment, -, rfl⟩ := List.mem_map.mp h
    exact colon_not_mem_numeral (by decide) (by decide) _

theorem filter_edge (chunk : List UInt16) :
    (edge chunk).filter (· ≠ []) = chunk.map fun segment => numeral 16 segment.toNat := by
  unfold edge
  split
  next h =>
    subst h
    rfl
  next => exact List.filter_eq_self.mpr fun part hpart => decide_eq_true (ne_nil_of_mem_segments hpart)

/-- A text with a colon in it is read as an IPv6 address. -/
theorem address_intercalate {parts : List Bytes} (hparts : ∀ part ∈ parts, 0x3a ∉ part) (hlength : 2 ≤ parts.length) :
    address ([0x3a].intercalate parts) = .v6 (BitVec.ofNat 128 (beNat (partsOctets parts))) := by
  have hne : parts ≠ [] := List.ne_nil_of_length_pos (by omega)
  unfold address
  rw [List.splitOn_intercalate 0x3a hparts hne]
  exact if_neg (by omega)

/-- The parts of a text with a gap in it: the segments around it, and as many zeros as are missing. -/
theorem partsOctets_gap (front back : List UInt16) (n : Nat) (h : front.length + n + back.length = 8) :
    partsOctets (edge front ++ [] :: edge back) = octetsOf (front ++ (List.replicate n 0 ++ back)) := by
  have hzeros : 16 - ((octetsOf front).length + (octetsOf back).length) = n * 2 := by
    simp only [length_octetsOf]
    omega
  -- An empty front has left an empty part of its own, which is where the gap starts then.
  have hgap : ∃ rest, edge front ++ [] :: edge back = (front.map fun segment => numeral 16 segment.toNat) ++ rest ∧
      rest.takeWhile (· ≠ []) = [] ∧ rest.filter (· ≠ []) = back.map fun segment => numeral 16 segment.toNat := by
    cases front with
    | nil => exact ⟨[] :: [] :: edge back, rfl, rfl, filter_edge back⟩
    | cons => exact ⟨[] :: edge back, rfl, rfl, filter_edge back⟩
  obtain ⟨rest, hparts, htake, hfilter⟩ := hgap
  rw [hparts, partsOctets_append _ _ (fun part => ne_nil_of_mem_segments) htake, hfilter, partOctets_segments,
    partOctets_segments, hzeros, ← octetsOf_zeros, ← octetsOf_append, ← octetsOf_append]

/-- Without a gap nothing is missing. -/
theorem partsOctets_whole (h : segments.length = 8) :
    partsOctets (segments.map fun segment => numeral 16 segment.toNat) = octetsOf segments := by
  have hparts := partsOctets_append (segments.map fun segment => numeral 16 segment.toNat) []
    (fun part => ne_nil_of_mem_segments) rfl
  rw [List.append_nil, partOctets_segments] at hparts
  simpa [h] using hparts

theorem length_segmentsOf : ∀ octets : Bytes, (segmentsOf octets).length = octets.length / 2
  | [] => rfl
  | [_] => by simp [segmentsOf]
  | _ :: _ :: octets => by
    simp only [segmentsOf, List.length_cons, length_segmentsOf octets]
    omega

/-- An address that is mapped from an IPv4 address. -/
theorem address_mapped {ipv4 : Bytes} (h : ipv4.length = 4) :
    address ([0x3a, 0x3a, 0x66, 0x66, 0x66, 0x66, 0x3a] ++ Ipv4Addr.fmt ipv4) =
      .v6 (BitVec.ofNat 128 (beNat (List.replicate 10 0 ++ [0xff, 0xff] ++ ipv4))) := by
  have htext : [0x3a, 0x3a, 0x66, 0x66, 0x66, 0x66, 0x3a] ++ Ipv4Addr.fmt ipv4 =
      [0x3a].intercalate [[], [], [0x66, 0x66, 0x66, 0x66], Ipv4Addr.fmt ipv4] := by
    simp only [List.intercalate_cons_cons, List.intercalate_singleton]
    rfl
  have hquad : partOctets (Ipv4Addr.fmt ipv4) = ipv4 := partOctets_fmt_v4 h
  have hne : Ipv4Addr.fmt ipv4 ≠ [] := by
    intro hnil
    rw [← hquad, hnil] at h
    exact absurd h (by decide)
  have hffff : partOctets [0x66, 0x66, 0x66, 0x66] = [0xff, 0xff] := by decide
  have hparts := partsOctets_append [] [[], [], [0x66, 0x66, 0x66, 0x66], Ipv4Addr.fmt ipv4]
    (fun _ hmem => absurd hmem List.not_mem_nil) rfl
  have hfilter : [[], [], [0x66, 0x66, 0x66, 0x66], Ipv4Addr.fmt ipv4].filter (· ≠ []) =
      [[0x66, 0x66, 0x66, 0x66], Ipv4Addr.fmt ipv4] := by
    simp [hne]
  rw [hfilter] at hparts
  simp only [List.nil_append, List.flatMap_cons, List.flatMap_nil, hffff, hquad, List.append_nil, List.length_append,
    List.length_cons, List.length_nil, h] at hparts
  rw [htext, address_intercalate ?_ (by simp), hparts, List.append_assoc]
  simp only [List.mem_cons, List.not_mem_nil, or_false]
  rintro part (rfl | rfl | rfl | rfl)
  · decide
  · decide
  · decide
  · exact colon_not_mem_fmt_v4 ipv4

/-- Two colons stand for a run of zeros. -/
theorem address_gap {front back : List UInt16} {n : Nat} (h : front.length + n + back.length = 8) :
    address (Ipv6Addr.fmtSubslice front ++ ([0x3a, 0x3a] ++ Ipv6Addr.fmtSubslice back)) =
      .v6 (BitVec.ofNat 128 (beNat (octetsOf (front ++ (List.replicate n 0 ++ back))))) := by
  have htext : Ipv6Addr.fmtSubslice front ++ ([0x3a, 0x3a] ++ Ipv6Addr.fmtSubslice back) =
      [0x3a].intercalate (edge front ++ [] :: edge back) := by
    rw [intercalate_append _ (edge_ne_nil _) (List.cons_ne_nil _ _), List.intercalate_cons_of_ne_nil (edge_ne_nil _),
      intercalate_edge, intercalate_edge]
    rfl
  rw [htext, address_intercalate, partsOctets_gap front back n h]
  · intro part hpart
    rcases List.mem_append.mp hpart with hpart | hpart
    · exact colon_not_mem_edge hpart
    · rcases List.mem_cons.mp hpart with rfl | hpart
      · exact List.not_mem_nil
      · exact colon_not_mem_edge hpart
  · have hfront := List.length_pos_iff.mpr (edge_ne_nil front)
    simp only [List.length_append, List.length_cons]
    omega

/-- Segments of which none is left out. -/
theorem address_whole (h : segments.length = 8) :
    address (Ipv6Addr.fmtSubslice segments) = .v6 (BitVec.ofNat 128 (beNat (octetsOf segments))) := by
  unfold Ipv6Addr.fmtSubslice
  rw [address_intercalate, partsOctets_whole h]
  · intro part hpart
    obtain ⟨segment, -, rfl⟩ := List.mem_map.mp hpart
    exact colon_not_mem_numeral (by decide) (by decide) _
  · rw [List.length_map, h]
    decide

/-- The octets of an address, printed and read. -/
theorem address_fmt_v6 (h : octets.length = 16) :
    address (Ipv6Addr.fmt octets) = .v6 (BitVec.ofNat 128 (beNat octets)) := by
  have hsegments : octetsOf (segmentsOf octets) = octets := octetsOf_segmentsOf (by omega)
  have hlength : (segmentsOf octets).length = 8 := by rw [length_segmentsOf, h]
  unfold Ipv6Addr.fmt
  split
  next ipv4 hmapped =>
    unfold Ipv6Addr.toIpv4Mapped at hmapped
    split at hmapped
    next hfront =>
      cases hmapped
      rw [address_mapped (by rw [List.length_drop, h]), ← hfront, List.take_append_drop]
    next => cases hmapped
  next =>
    dsimp only
    split
    next =>
      have hbetween := Ipv6Addr.zeroes_between (segmentsOf octets)
      have hlengths := congrArg List.length hbetween
      simp only [List.length_append, List.length_replicate, hlength] at hlengths
      rw [address_gap (n := (Ipv6Addr.zeroes (segmentsOf octets)).len) (by omega), ← hbetween, hsegments]
    next => rw [address_whole hlength, hsegments]

/-- An address that is printed and read is the same address. -/
theorem address_display (ip : IpAddr) : address ip.display = ip := by
  cases ip with
  | v4 ip =>
    have hoctets : beBytes 4 ip.toNat ≠ [] := List.ne_nil_of_length_eq_add_one (length_beBytes 4 _)
    have hread : Client.octets ((Ipv4Addr.fmt (Ipv4Addr.octets ip)).splitOn 0x2e) = beBytes 4 ip.toNat := by
      rw [Ipv4Addr.octets, splitOn_fmt_v4 hoctets, octets_numerals]
    unfold IpAddr.display address
    rw [splitOn_of_not_mem (colon_not_mem_fmt_v4 _), hread, beNat_beBytes_of_lt ip.isLt]
    simp
  | v6 ip =>
    have hlt : ip.toNat < 256 ^ 16 := ip.isLt
    have hread : address (IpAddr.v6 ip).display = .v6 (BitVec.ofNat 128 (beNat (beBytes 16 ip.toNat))) :=
      address_fmt_v6 (length_beBytes 16 _)
    rw [hread, beNat_beBytes_of_lt hlt, BitVec.ofNat_toNat, BitVec.setWidth_eq]

end Read

end NfsEmbed.Vfs
