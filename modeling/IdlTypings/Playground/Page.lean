import IdlTypings.Text

/-!
# The page of the playground

The page that edits a document and shows its declarations while it is typed.
-/

namespace IdlTypings.Playground

def pageLines : List String :=
  ["<!DOCTYPE html>",
   "<html>",
   "<head>",
   "<meta charset=\"utf-8\">",
   "<title>webidl-dts-gen playground</title>",
   "<style>",
   "  body \x7b margin: 0; font-family: system-ui, sans-serif; display: flex; flex-direction: column; height: 100vh; \x7d",
   "  header \x7b padding: 0.5em 1em; border-bottom: 1px solid #ced4da; display: flex; gap: 1em; align-items: center; \x7d",
   "  main \x7b flex: 1; display: flex; min-height: 0; \x7d",
   "  textarea, pre \x7b flex: 1; margin: 0; padding: 1em; font-family: monospace; font-size: 13px; overflow: auto; \x7d",
   "  textarea \x7b border: none; border-right: 1px solid #ced4da; resize: none; outline: none; \x7d",
   "  #diagnostics \x7b max-height: 25vh; overflow: auto; margin: 0; padding: 0.5em 1em; border-top: 1px solid #ced4da; font-family: monospace; font-size: 12px; \x7d",
   "  .warning \x7b color: #b08800; \x7d",
   "  .error \x7b color: #c92a2a; \x7d",
   "</style>",
   "</head>",
   "<body>",
   "<header>",
   "  <strong>webidl-dts-gen</strong>",
   "  <label><input type=\"checkbox\" id=\"emscripten\"> Emscripten</label>",
   "  <label>Module <input type=\"text\" id=\"module\" value=\"Module\" size=\"10\"></label>",
   "  <label><input type=\"checkbox\" id=\"defaultExport\"> default export</label>",
   "</header>",
   "<main>",
   "  <textarea id=\"idl\" spellcheck=\"false\" placeholder=\"interface Foo \x7b attribute long bar; \x7d;\"></textarea>",
   "  <pre id=\"dts\"></pre>",
   "</main>",
   "<ul id=\"diagnostics\"></ul>",
   "<script>",
   "(function() \x7b",
   "  var $ = function(id) \x7b return document.getElementById(id); \x7d;",
   "  var socket = null;",
   "  var pending = false;",
   "",
   "  function request() \x7b",
   "    return \x7b",
   "      idl: $(\"idl\").value,",
   "      emscripten: $(\"emscripten\").checked,",
   "      module: $(\"module\").value,",
   "      defaultExport: $(\"defaultExport\").checked",
   "    \x7d;",
   "  \x7d",
   "",
   "  function show(resp) \x7b",
   "    var list = $(\"diagnostics\");",
   "    list.innerHTML = \"\";",
   "    if (resp.error) \x7b",
   "      $(\"dts\").textContent = \"\";",
   "      var li = document.createElement(\"li\");",
   "      li.className = \"error\";",
   "      li.textContent = resp.error;",
   "      list.appendChild(li);",
   "      return;",
   "    \x7d",
   "    $(\"dts\").textContent = resp.dts || \"\";",
   "    (resp.diagnostics || []).forEach(function(d) \x7b",
   "      var li = document.createElement(\"li\");",
   "      li.className = d.severity;",
   "      li.textContent = d.line + \":\" + d.column + \": \" + d.message + \" [\" + d.rule + \"]\";",
   "      list.appendChild(li);",
   "    \x7d);",
   "  \x7d",
   "",
   "  function post() \x7b",
   "    var r = request();",
   "    var q = \"?emscripten=\" + r.emscripten + \"&defaultExport=\" + r.defaultExport + \"&module=\" + encodeURIComponent(r.module);",
   "    fetch(\"/convert\" + q, \x7b method: \"POST\", body: r.idl \x7d)",
   "      .then(function(res) \x7b return res.json(); \x7d)",
   "      .then(show);",
   "  \x7d",
   "",
   "  function update() \x7b",
   "    if (socket && socket.readyState === WebSocket.OPEN) \x7b",
   "      socket.send(JSON.stringify(request()));",
   "    \x7d else \x7b",
   "      post();",
   "    \x7d",
   "  \x7d",
   "",
   "  function connect() \x7b",
   "    socket = new WebSocket((location.protocol === \"https:\" ? \"wss://\" : \"ws://\") + location.host + \"/ws\");",
   "    socket.onmessage = function(ev) \x7b show(JSON.parse(ev.data)); \x7d;",
   "    socket.onclose = function() \x7b socket = null; setTimeout(connect, 2000); \x7d;",
   "  \x7d",
   "",
   "  [\"idl\", \"module\"].forEach(function(id) \x7b",
   "    $(id).addEventListener(\"input\", function() \x7b",
   "      if (pending) return;",
   "      pending = true;",
   "      setTimeout(function() \x7b pending = false; update(); \x7d, 150);",
   "    \x7d);",
   "  \x7d);",
   "  [\"emscripten\", \"defaultExport\"].forEach(function(id) \x7b $(id).addEventListener(\"change\", update); \x7d);",
   "",
   "  fetch(\"/initial\").then(function(res) \x7b return res.text(); \x7d).then(function(text) \x7b",
   "    if (text) $(\"idl\").value = text;",
   "    update();",
   "  \x7d);",
   "  connect();",
   "\x7d)();",
   "</script>",
   "</body>",
   "</html>"]

def page : Text := pageLines.flatMap fun line => Text.ofString line ++ [Cell.char '\n']

end IdlTypings.Playground
