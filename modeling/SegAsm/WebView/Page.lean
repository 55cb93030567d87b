import SegAsm.Path

/-! The page itself. -/
namespace SegAsm.WebView

def pageLines : List String := [
  "<html>",
  "<head>",
  "\t<title>x86 Translator</title>",
  "</head>",
  "<body style=\"background-color: #1E1E1E;\">",
  "\t<h1 style=\"color: white; display: inline-block;\">x86 Translator</h1>",
  "\t<button id=\"runButton\" style=\"margin-left: 50px; height: 40px; width: " ++
    "100px;\">ASSEMBLE</button>",
  "\t<span id=\"errors\" style=\"margin-left: 20px; color: white; font-family: monospace;\"></span>",
  "\t<h2 style=\"color: white;\">Listing</h2>",
  "\t<pre style=\"width: 980px; padding: 10px; color: white; font-size: 1.1em; " ++
    "background-color: black; height: 600px; overflow-y: auto; border: 2px solid white;\" " ++
    "id=\"listing\"></pre>",
  "",
  "\t<script>",
  "\t\tvar socket = null;",
  "",
  "\t\tfunction connect() \x7b",
  "\t\t\tsocket = new WebSocket(\"ws://\" + window.location.host + \"/ws\");",
  "",
  "\t\t\tsocket.onmessage = function(event) \x7b",
  "\t\t\t\tvar data = JSON.parse(event.data);",
  "\t\t\t\tif (data.type == \"listing\") \x7b",
  "\t\t\t\t\tdocument.getElementById(\"listing\").textContent = data.text;",
  "\t\t\t\t\tdocument.getElementById(\"errors\").textContent = \"Errors: \" + data.errors;",
  "\t\t\t\t\x7d else if (data.type == \"console\") \x7b",
  "\t\t\t\t\tdocument.getElementById(\"listing\").textContent = data.text;",
  "\t\t\t\t\tdocument.getElementById(\"errors\").textContent = \"\";",
  "\t\t\t\t\x7d",
  "\t\t\t\x7d;",
  "",
  "\t\t\t// when the socket closes, try to reconnect every 3 seconds",
  "\t\t\tsocket.onclose = function() \x7b",
  "\t\t\t\tsetTimeout(connect, 3000);",
  "\t\t\t\x7d;",
  "\t\t\x7d",
  "",
  "\t\tconnect();",
  "",
  "\t\tdocument.getElementById(\"runButton\").onclick = function() \x7b",
  "\t\t\tif (socket.readyState == WebSocket.OPEN) \x7b",
  "\t\t\t\tsocket.send(JSON.stringify(\x7b",
  "\t\t\t\t\ttype: \"run\"",
  "\t\t\t\t\x7d));",
  "\t\t\t\x7d",
  "\t\t\x7d;",
  "\t</script>",
  "</body>",
  "</html>"]

/-- The text of the page. -/
def page : String :=
  String.intercalate "\n" pageLines

/-- What a browser gets. -/
structure Response where
  status : Nat
  contentType : String
  body : String
deriving DecidableEq, Repr

/-- Where the page opens its socket. -/
def socketPath : String := "/ws"

/-- The answer to a plain request for a path: the page everywhere but where the socket is. -/
def respond (path : String) : Response :=
  let path := String.ofList (path.toList.takeWhile fun c => c != '?' && c != '#')
  if path == socketPath then ⟨400, "text/plain; charset=utf-8", "Bad Request\n"⟩
  else ⟨200, "text/html", page⟩

end SegAsm.WebView
