import LiveTree.Text.Utf8

namespace LiveTree.Percent

/-- The octets of a text in which a percent sign and two hexadecimal digits stand for an octet. A
percent sign without digits stands for itself. -/
def octets : Text → Octets
  | [] => []
  | [c] => Utf8.encodePoint c
  | [c, d] => Utf8.encodePoint c ++ Utf8.encodePoint d
  | c :: high :: low :: s =>
    if c == '%' then
      match high.hexDigit?, low.hexDigit? with
      | some a, some b => .ofNat (a * 16 + b) :: octets s
      | _, _ => Utf8.encodePoint c ++ octets (high :: low :: s)
    else Utf8.encodePoint c ++ octets (high :: low :: s)

/-- The text of those octets. -/
def decode (s : Text) : Text := Utf8.decodeLossy (octets s)

@[simp] theorem decode_nil : decode [] = [] := rfl

end LiveTree.Percent
