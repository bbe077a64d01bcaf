import ZkCommand.Proofs.Reading.Reordered
import ZkCommand.Proofs.Transcode.Diagnostics
import ZkCommand.Proofs.Transcode.UnknownKeys

/-!
# ZkCommand.Proofs.Transcode.Reordered

**The order of keys is irrelevant.** Documents that are equal up to the order of the entries of
their mappings, at any depth, have the same record and the same diagnostics in the same order, or
fail in the same way at the same place.
-/

namespace ZkCommand.Transcode

/-- **The order of keys is irrelevant** to the record, to the diagnostics and their order, to the
failure and its place, and to all that is logged but the unknown keys. -/
theorem ofTree_reordered (config : Config) {t t' : Tree} (h : t.Reordered t') :
    ofTree config t = ofTree config t' ∧ (walk config t).quiet = (walk config t').quiet := by
  have agree : (walk config t).quiet = (walk config t').quiet := by
    rw [Reading.walk_document, Reading.walk_document]
    refine Walk.quiet_bind_congr ?_ fun record => rfl
    exact Reading.quiet_walk_of_reordered _ (Reading.orderless_document config) ⟨rfl, h⟩
  exact ⟨ofTree_eq_of_quiet agree, agree⟩

/-- A document that a curve point pays for, with the coordinates of the point and the permissions of
its one account update. -/
def paidByPoint (point permissions : List (String × Tree)) : Tree :=
  .map [
    ("feePayer", .map [
      ("body", .map [("publicKey", .map point), ("fee", .num "1"), ("nonce", .num "0")]),
      ("authorization", .str "")]),
    ("accountUpdates", .list [withLabels "Minus" (.map permissions)]),
    ("memo", .str "")]

/-- Such a document, with the point, the permissions and the fee payer written backwards. -/
theorem ofTree_reordered_paidByPoint :
    ∃ out, ofTree ⟨.tagged, .simple, ""⟩
        (paidByPoint [("x", .num "7"), ("isOdd", .bool true)]
          [("send", .null), ("access", .str "?")]) = .ok out ∧
      ofTree ⟨.tagged, .simple, ""⟩ (.map [
        ("feePayer", .map [
          ("authorization", .str ""),
          ("body", .map [("publicKey", .map [("isOdd", .bool true), ("x", .num "7")]),
            ("fee", .num "1"), ("nonce", .num "0")])]),
        ("accountUpdates",
          .list [withLabels "Minus" (.map [("access", .str "?"), ("send", .null)])]),
        ("memo", .str "")]) = .ok out := by
  obtain ⟨out, h⟩ := exists_outcome ⟨.tagged, .simple, ""⟩
    (paidByPoint [("x", .num "7"), ("isOdd", .bool true)] [("send", .null), ("access", .str "?")])
    (by decide +kernel)
  refine ⟨out, h, ?_⟩
  rw [← h]
  refine (ofTree_reordered _ ?_).1.symm
  have swapped : ∀ {key key' : String} (v v' : Tree), key ≠ key' →
      (Tree.map [(key, v), (key', v')]).Reordered (.map [(key', v'), (key, v)]) := by
    intro key key' v v' other
    exact .entries (by simpa using other) (.swap ..)
  have update : (withLabels "Minus" (.map [("send", .null), ("access", .str "?")])).Reordered
      (withLabels "Minus" (.map [("access", .str "?"), ("send", .null)])) :=
    .value [] "body" [] (.value [_, _, _, _, _] "update" _
      (.value [_] "permissions" [] (swapped _ _ (by decide))))
  exact .trans (.value [] "feePayer" _
      (.trans (.value [] "body" _ (.value [] "publicKey" _ (swapped _ _ (by decide))))
        (swapped _ _ (by decide))))
    (.value [_] "accountUpdates" _ (.element [] [] update))

end ZkCommand.Transcode
